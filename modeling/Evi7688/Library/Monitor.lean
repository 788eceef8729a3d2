/- Evi7688/Library/Monitor
   digest: Procedures that take one lock, and what any interleaving of their steps amounts to. -/

import Mathlib.Logic.Function.Basic
import Mathlib.Tactic.Common

set_option autoImplicit false
set_option relaxedAutoImplicit false

namespace Evi7688.Library.Monitor

universe u v w

/-- What is left of a procedure: nothing, an atomic step on the shared state, after which it goes on
by what it saw, or taking or releasing the lock. -/
inductive Code (S : Type u)
  | ret
  | act (f : S → S) (next : S → Code S)
  | lock (next : Code S)
  | unlock (next : Code S)

variable {S : Type u} {C : Type v} {T : Type w}

namespace Code

/-- The procedure with nobody else around. -/
def exec : Code S → S → S
  | .ret, s => s
  | .act f next, s => (next s).exec (f s)
  | .lock next, s => next.exec s
  | .unlock next, s => next.exec s

/-- With the lock taken: whatever is seen, the lock is released once, at the end. -/
def Inside : Code S → Prop
  | .act _ next => ∀ s, (next s).Inside
  | .unlock next => next = .ret
  | _ => False

def Guarded : Code S → Prop
  | .lock next => next.Inside
  | _ => False

def steps (fs : List (S → S)) (k : Code S) : Code S := fs.foldr (fun f k => .act f fun _ => k) k

theorem exec_steps (fs : List (S → S)) (k : Code S) (s : S) :
    (steps fs k).exec s = k.exec (fs.foldl (fun s f => f s) s) := by
  induction fs generalizing s with
  | nil => rfl
  | cons f fs ih => exact ih (f s)

theorem inside_steps (fs : List (S → S)) {k : Code S} (h : k.Inside) : (steps fs k).Inside := by
  induction fs with
  | nil => exact h
  | cons f fs ih => exact fun _ => ih

/-- Every step, whatever is seen, leads to a related state. -/
def Along (R : S → S → Prop) : Code S → Prop
  | .ret => True
  | .act f next => ∀ s, R s (f s) ∧ (next s).Along R
  | .lock next => next.Along R
  | .unlock next => next.Along R

theorem along_steps {R : S → S → Prop} {fs : List (S → S)} (hfs : ∀ f ∈ fs, ∀ s, R s (f s))
    {k : Code S} (h : k.Along R) : (steps fs k).Along R := by
  induction fs with
  | nil => exact h
  | cons f fs ih =>
    have hrest := ih fun g hg => hfs g (List.mem_cons_of_mem _ hg)
    exact fun s => ⟨hfs f List.mem_cons_self s, hrest⟩

theorem Along.exec {R : S → S → Prop} (refl : ∀ s, R s s)
    (trans : ∀ {a b c}, R a b → R b c → R a c) {k : Code S} (h : k.Along R) (s : S) :
    R s (k.exec s) := by
  induction k generalizing s with
  | ret => exact refl s
  | act f next ih => exact trans (h s).1 (ih s (h s).2 (f s))
  | lock next ih => exact ih h s
  | unlock next ih => exact ih h s

theorem Guarded.eq_lock {k : Code S} (h : k.Guarded) : ∃ next, k = .lock next ∧ next.Inside := by
  cases k with
  | lock next => exact ⟨next, rfl, h⟩
  | _ => exact h.elim

end Code

/-- The threads, each in a call or between two of them, and the calls in the order in which they
took the lock. -/
structure State (S : Type u) (C : Type v) (T : Type w) where
  shared : S
  owner : Option T
  running : T → Option (C × Code S)
  todo : T → List C
  taken : List (T × C)

def start (x : S) (program : T → List C) : State S C T := ⟨x, none, fun _ => none, program, []⟩

section Steps

variable [DecidableEq T] (proc : C → Code S)

/-- The next step of one thread. A thread that finds the lock taken stays where it is. -/
def step (s : State S C T) (t : T) : State S C T :=
  match s.running t with
  | none =>
    match s.todo t with
    | [] => s
    | c :: rest =>
      { s with
        running := Function.update s.running t (some (c, proc c))
        todo := Function.update s.todo t rest }
  | some (_, .ret) => { s with running := Function.update s.running t none }
  | some (c, .act f next) =>
    { s with
      shared := f s.shared
      running := Function.update s.running t (some (c, next s.shared)) }
  | some (c, .lock next) =>
    match s.owner with
    | none =>
      { s with
        owner := some t
        running := Function.update s.running t (some (c, next))
        taken := s.taken ++ [(t, c)] }
    | some _ => s
  | some (c, .unlock next) =>
    { s with owner := none, running := Function.update s.running t (some (c, next)) }

def run (s : State S C T) (schedule : List T) : State S C T := schedule.foldl (step proc) s

/-- The calls without threads, one after the other. -/
def serial (x : S) (cs : List C) : S := cs.foldl (fun s c => (proc c).exec s) x

theorem serial_snoc (x : S) (cs : List C) (c : C) :
    serial proc x (cs ++ [c]) = (proc c).exec (serial proc x cs) := by
  simp [serial]

theorem run_append (s : State S C T) (a b : List T) :
    run proc s (a ++ b) = run proc (run proc s a) b :=
  List.foldl_append

end Steps

/-- The call of a thread that has not taken the lock yet. -/
def State.waiting (s : State S C T) (t : T) : List C :=
  match s.running t with
  | some (c, .lock _) => [c]
  | _ => []

def State.calls (s : State S C T) : List C := s.taken.map Prod.snd

def State.callsOf [DecidableEq T] (s : State S C T) (t : T) : List C :=
  (s.taken.filter fun x => x.1 = t).map Prod.snd

/-- The thread is between taking and releasing the lock. -/
def State.Holding (s : State S C T) (t : T) : Prop := ∃ c k, s.running t = some (c, k) ∧ k.Inside

def Outside (proc : C → Code S) (r : Option (C × Code S)) : Prop :=
  r = none ∨ ∃ c, r = some (c, proc c) ∨ r = some (c, .ret)

section Serialisation

variable [DecidableEq T] (proc : C → Code S) (x : S) (program : T → List C)

/-- The lock has at most one owner, and once the owner has finished its call the shared state is
that of the calls in the order of the lock. -/
structure Serialised (s : State S C T) : Prop where
  outside : ∀ t, s.owner ≠ some t → Outside proc (s.running t)
  inside : ∀ t, s.owner = some t → ∃ c k, s.running t = some (c, k) ∧ k.Inside ∧
    k.exec s.shared = serial proc x s.calls
  free : s.owner = none → s.shared = serial proc x s.calls
  order : ∀ t, s.callsOf t ++ s.waiting t ++ s.todo t = program t

theorem serialised_start : Serialised proc x program (start x program) where
  outside _ _ := .inl rfl
  inside _ h := by cases h
  free _ := rfl
  order _ := rfl

variable {proc x program} {s : State S C T} {t : T}

theorem not_outside_of_inside (guarded : ∀ c, (proc c).Guarded) {c : C} {k : Code S}
    (h : k.Inside) : ¬ Outside proc (some (c, k)) := by
  rintro (hnone | ⟨d, hproc | hret⟩)
  · cases hnone
  · obtain ⟨next, hlock, -⟩ := (guarded d).eq_lock
    obtain ⟨-, rfl⟩ := Prod.mk.inj (Option.some.inj hproc)
    rw [hlock] at h
    exact h
  · obtain ⟨-, rfl⟩ := Prod.mk.inj (Option.some.inj hret)
    exact h

theorem Serialised.owner_of_inside (h : Serialised proc x program s)
    (guarded : ∀ c, (proc c).Guarded) {c : C} {k : Code S} (hrunning : s.running t = some (c, k))
    (hk : k.Inside) : s.owner = some t := by
  by_contra howner
  have houtside := h.outside t howner
  rw [hrunning] at houtside
  exact not_outside_of_inside guarded hk houtside

theorem Serialised.not_owner (h : Serialised proc x program s) {r : Option (C × Code S)}
    (hrunning : s.running t = r) (hr : ∀ c k, r = some (c, k) → ¬ k.Inside) :
    s.owner ≠ some t := by
  intro howner
  obtain ⟨c, k, hk, hinside, -⟩ := h.inside t howner
  exact hr c k (hrunning.symm.trans hk) hinside

theorem Serialised.call (h : Serialised proc x program s) (guarded : ∀ c, (proc c).Guarded)
    (hrunning : s.running t = none) {c : C} {rest : List C} (htodo : s.todo t = c :: rest) :
    Serialised proc x program
      { s with
        running := Function.update s.running t (some (c, proc c))
        todo := Function.update s.todo t rest } where
  outside u hu := by
    by_cases htu : u = t
    · subst htu
      exact .inr ⟨c, .inl (Function.update_self ..)⟩
    · simpa only [Function.update_of_ne htu] using h.outside u hu
  inside u hu := by
    have htu : u ≠ t := by
      rintro rfl
      exact h.not_owner hrunning (fun _ _ hr => by cases hr) hu
    obtain ⟨d, k, hk, hinside, hexec⟩ := h.inside u hu
    exact ⟨d, k, (Function.update_of_ne htu ..).trans hk, hinside, hexec⟩
  free := h.free
  order u := by
    by_cases htu : u = t
    · subst htu
      obtain ⟨next, hlock, -⟩ := (guarded c).eq_lock
      have horder := h.order u
      simpa [State.waiting, hrunning, htodo, hlock, State.callsOf] using horder
    · simpa only [State.waiting, State.callsOf, Function.update_of_ne htu] using h.order u

theorem Serialised.return (h : Serialised proc x program s) {c : C}
    (hrunning : s.running t = some (c, .ret)) :
    Serialised proc x program { s with running := Function.update s.running t none } where
  outside u hu := by
    by_cases htu : u = t
    · subst htu
      exact .inl (Function.update_self ..)
    · simpa only [Function.update_of_ne htu] using h.outside u hu
  inside u hu := by
    have htu : u ≠ t := by
      rintro rfl
      refine h.not_owner hrunning ?_ hu
      rintro d k hk hinside
      obtain ⟨-, rfl⟩ := Prod.mk.inj (Option.some.inj hk)
      exact hinside
    obtain ⟨d, k, hk, hinside, hexec⟩ := h.inside u hu
    exact ⟨d, k, (Function.update_of_ne htu ..).trans hk, hinside, hexec⟩
  free := h.free
  order u := by
    have horder := h.order u
    by_cases htu : u = t
    · subst htu
      simpa [State.waiting, hrunning, State.callsOf] using horder
    · simpa only [State.waiting, State.callsOf, Function.update_of_ne htu] using horder

theorem Serialised.act (h : Serialised proc x program s) (howner : s.owner = some t) {c : C}
    {f : S → S} {next : S → Code S} (hrunning : s.running t = some (c, .act f next)) :
    Serialised proc x program
      { s with
        shared := f s.shared
        running := Function.update s.running t (some (c, next s.shared)) } where
  outside u hu := by
    have htu : u ≠ t := by
      rintro rfl
      exact hu howner
    simpa only [Function.update_of_ne htu] using h.outside u hu
  inside u hu := by
    obtain rfl : t = u := Option.some.inj (howner.symm.trans hu)
    obtain ⟨d, k, hk, hinside, hexec⟩ := h.inside t howner
    obtain ⟨rfl, rfl⟩ := Prod.mk.inj (Option.some.inj (hrunning.symm.trans hk))
    exact ⟨c, next s.shared, Function.update_self .., hinside _, hexec⟩
  free hfree := by
    have : some t = none := howner.symm.trans hfree
    cases this
  order u := by
    have horder := h.order u
    by_cases htu : u = t
    · subst htu
      obtain ⟨d, k, hk, hinside, -⟩ := h.inside u howner
      obtain ⟨rfl, rfl⟩ := Prod.mk.inj (Option.some.inj (hrunning.symm.trans hk))
      -- what follows a step inside the lock does not wait for it
      have hquiet : ∀ k : Code S, k.Inside → State.waiting
          { s with shared := f s.shared, running := Function.update s.running u (some (c, k)) }
            u = [] := by
        intro k hk
        cases k with
        | lock next => exact hk.elim
        | _ => simp [State.waiting]
      rw [hquiet _ (hinside s.shared)]
      simpa [State.waiting, hrunning, State.callsOf] using horder
    · simpa only [State.waiting, State.callsOf, Function.update_of_ne htu] using horder

theorem Serialised.lock (h : Serialised proc x program s) (guarded : ∀ c, (proc c).Guarded)
    (hfree : s.owner = none) {c : C} {next : Code S}
    (hrunning : s.running t = some (c, .lock next)) :
    Serialised proc x program
      { s with
        owner := some t
        running := Function.update s.running t (some (c, next))
        taken := s.taken ++ [(t, c)] } := by
  -- a thread in front of the lock is at the start of its call
  have hstart : proc c = .lock next := by
    have houtside := h.outside t (by simp [hfree])
    rw [hrunning] at houtside
    rcases houtside with hnone | ⟨d, hproc | hret⟩
    · cases hnone
    · obtain ⟨rfl, hk⟩ := Prod.mk.inj (Option.some.inj hproc)
      exact hk.symm
    · cases hret
  obtain ⟨next', hlock, hinside⟩ := (guarded c).eq_lock
  obtain rfl : next = next' := by simpa [hstart] using hlock
  refine ⟨?_, ?_, ?_, ?_⟩
  · intro u hu
    have htu : u ≠ t := by
      rintro rfl
      exact hu rfl
    simpa only [Function.update_of_ne htu] using h.outside u (by simp [hfree])
  · intro u hu
    obtain rfl : t = u := Option.some.inj hu
    refine ⟨c, next, Function.update_self .., hinside, ?_⟩
    have hcalls : State.calls
        { s with
          owner := some t
          running := Function.update s.running t (some (c, next))
          taken := s.taken ++ [(t, c)] } = s.calls ++ [c] := by
      simp [State.calls]
    rw [hcalls, serial_snoc, ← h.free hfree, hstart]
    rfl
  · intro hnone
    cases hnone
  · intro u
    have horder := h.order u
    by_cases htu : u = t
    · subst htu
      have hquiet : ∀ k : Code S, k.Inside → State.waiting
          { s with
            owner := some u
            running := Function.update s.running u (some (c, k))
            taken := s.taken ++ [(u, c)] } u = [] := by
        intro k hk
        cases k with
        | lock next => exact hk.elim
        | _ => simp [State.waiting]
      rw [hquiet _ hinside]
      simpa [State.waiting, hrunning, State.callsOf] using horder
    · have hother : ¬ t = u := fun heq => htu heq.symm
      simpa [State.waiting, State.callsOf, Function.update_of_ne htu, hother] using horder

theorem Serialised.unlock (h : Serialised proc x program s) (howner : s.owner = some t) {c : C}
    {next : Code S} (hrunning : s.running t = some (c, .unlock next)) :
    Serialised proc x program
      { s with owner := none, running := Function.update s.running t (some (c, next)) } := by
  obtain ⟨d, k, hk, hinside, hexec⟩ := h.inside t howner
  obtain ⟨rfl, rfl⟩ := Prod.mk.inj (Option.some.inj (hrunning.symm.trans hk))
  obtain rfl : next = .ret := hinside
  refine ⟨?_, ?_, ?_, ?_⟩
  · intro u _
    by_cases htu : u = t
    · subst htu
      exact .inr ⟨c, .inr (Function.update_self ..)⟩
    · have hu : s.owner ≠ some u := by
        intro heq
        exact htu (Option.some.inj (heq.symm.trans howner))
      simpa only [Function.update_of_ne htu] using h.outside u hu
  · intro u hu
    cases hu
  · intro _
    exact hexec
  · intro u
    have horder := h.order u
    by_cases htu : u = t
    · subst htu
      simpa [State.waiting, hrunning, State.callsOf] using horder
    · simpa only [State.waiting, State.callsOf, Function.update_of_ne htu] using horder

theorem Serialised.step (h : Serialised proc x program s) (guarded : ∀ c, (proc c).Guarded)
    (t : T) : Serialised proc x program (step proc s t) := by
  cases hrunning : s.running t with
  | none =>
    cases htodo : s.todo t with
    | nil => simpa only [Monitor.step, hrunning, htodo] using h
    | cons c rest => simpa only [Monitor.step, hrunning, htodo] using h.call guarded hrunning htodo
  | some r =>
    obtain ⟨c, k⟩ := r
    -- outside the lock a thread is at the start of its call or at its end
    have howner : k ≠ proc c → k ≠ .ret → s.owner = some t := by
      intro hproc hret
      by_contra hne
      have houtside := h.outside t hne
      rw [hrunning] at houtside
      rcases houtside with hnone | ⟨d, hd | hd⟩
      · cases hnone
      · obtain ⟨rfl, rfl⟩ := Prod.mk.inj (Option.some.inj hd)
        exact hproc rfl
      · obtain ⟨-, rfl⟩ := Prod.mk.inj (Option.some.inj hd)
        exact hret rfl
    obtain ⟨first, hfirst, -⟩ := (guarded c).eq_lock
    cases k with
    | ret => simpa only [Monitor.step, hrunning] using h.return hrunning
    | act f next =>
      have hact := h.act (howner (by simp [hfirst]) (by simp)) hrunning
      simpa only [Monitor.step, hrunning] using hact
    | lock next =>
      cases hfree : s.owner with
      | none => simpa only [Monitor.step, hrunning, hfree] using h.lock guarded hfree hrunning
      | some u => simpa only [Monitor.step, hrunning, hfree] using h
    | unlock next =>
      have hunlock := h.unlock (howner (by simp [hfirst]) (by simp)) hrunning
      simpa only [Monitor.step, hrunning] using hunlock

theorem Serialised.run (h : Serialised proc x program s) (guarded : ∀ c, (proc c).Guarded)
    (schedule : List T) : Serialised proc x program (run proc s schedule) := by
  induction schedule generalizing s with
  | nil => exact h
  | cons t schedule ih => exact ih (h.step guarded t)

/-- Any interleaving of the threads is the calls in the order of the lock. -/
theorem serialised_run (guarded : ∀ c, (proc c).Guarded) (x : S) (program : T → List C)
    (schedule : List T) : Serialised proc x program (run proc (start x program) schedule) :=
  (serialised_start proc x program).run guarded schedule

theorem Serialised.exclusive (h : Serialised proc x program s) (guarded : ∀ c, (proc c).Guarded)
    {t u : T} (ht : s.Holding t) (hu : s.Holding u) : t = u := by
  obtain ⟨c, k, hrunning, hk⟩ := ht
  obtain ⟨d, l, hrunning', hl⟩ := hu
  have htowner := h.owner_of_inside guarded hrunning hk
  have huowner := h.owner_of_inside guarded hrunning' hl
  exact Option.some.inj (htowner.symm.trans huowner)

theorem along_run {R : S → S → Prop} (along : ∀ c, (proc c).Along R) {s : State S C T}
    (h : ∀ t c k, s.running t = some (c, k) → k.Along R) (schedule : List T) :
    ∀ t c k, (run proc s schedule).running t = some (c, k) → k.Along R := by
  induction schedule generalizing s with
  | nil => exact h
  | cons u schedule ih =>
    refine ih ?_
    have hupdate : ∀ r : Option (C × Code S), (∀ c k, r = some (c, k) → k.Along R) →
        ∀ t c k, Function.update s.running u r t = some (c, k) → k.Along R := by
      intro r hr t c k hk
      by_cases htu : t = u
      · subst htu
        rw [Function.update_self] at hk
        exact hr c k hk
      · rw [Function.update_of_ne htu] at hk
        exact h t c k hk
    have hcode : ∀ (d : C) (l : Code S), l.Along R →
        ∀ c k, some (d, l) = some (c, k) → k.Along R := by
      rintro d l hl c k heq
      obtain ⟨-, rfl⟩ := Prod.mk.inj (Option.some.inj heq)
      exact hl
    cases hrunning : s.running u with
    | none =>
      cases htodo : s.todo u with
      | nil => simpa only [Monitor.step, hrunning, htodo] using h
      | cons c rest =>
        simpa only [Monitor.step, hrunning, htodo] using hupdate _ (hcode c _ (along c))
    | some r =>
      obtain ⟨c, k⟩ := r
      have hk := h u c k hrunning
      cases k with
      | ret => simpa only [Monitor.step, hrunning] using hupdate none (fun _ _ hr => by cases hr)
      | act f next =>
        simpa only [Monitor.step, hrunning] using hupdate _ (hcode c _ (hk s.shared).2)
      | lock next =>
        cases hfree : s.owner with
        | none =>
          simpa only [Monitor.step, hrunning, hfree] using hupdate _ (hcode c next hk)
        | some v => simpa only [Monitor.step, hrunning, hfree] using h
      | unlock next => simpa only [Monitor.step, hrunning] using hupdate _ (hcode c next hk)

/-- At any moment the shared state is on its way to that of the calls in the order of the lock. -/
theorem along_serial {R : S → S → Prop} (refl : ∀ s, R s s)
    (trans : ∀ {a b c}, R a b → R b c → R a c) (along : ∀ c, (proc c).Along R)
    (guarded : ∀ c, (proc c).Guarded) (x : S) (program : T → List C) (schedule : List T) :
    R (run proc (start x program) schedule).shared
      (serial proc x (run proc (start x program) schedule).calls) := by
  have h := serialised_run guarded x program schedule
  have hcodes := along_run along (s := start x program) (fun _ _ _ hr => by cases hr) schedule
  cases howner : (run proc (start x program) schedule).owner with
  | none =>
    rw [← h.free howner]
    exact refl _
  | some t =>
    obtain ⟨c, k, hrunning, -, hexec⟩ := h.inside t howner
    rw [← hexec]
    exact (hcodes t c k hrunning).exec refl trans _

end Serialisation

section Progress

variable [DecidableEq T] {proc : C → Code S}

variable (proc) in
theorem exists_release (c : C) (k : Code S) (hk : k.Inside) {s : State S C T} {t : T}
    (howner : s.owner = some t) (hrunning : s.running t = some (c, k)) :
    ∃ more, (run proc s more).owner = none ∧
      (run proc s more).running = Function.update s.running t (some (c, .ret)) ∧
      (run proc s more).todo = s.todo := by
  induction k generalizing s with
  | ret => exact hk.elim
  | lock next => exact hk.elim
  | unlock next =>
    obtain rfl : next = .ret := hk
    exact ⟨[t], by simp [run, step, hrunning]⟩
  | act f next ih =>
    have hstep : step proc s t =
        { s with
          shared := f s.shared
          running := Function.update s.running t (some (c, next s.shared)) } := by
      simp only [step, hrunning]
    obtain ⟨more, hfree, hthere, htodo⟩ := ih s.shared (hk s.shared)
      (s := step proc s t) (by rw [hstep]; exact howner) (by rw [hstep]; simp)
    refine ⟨t :: more, hfree, hthere.trans ?_, htodo.trans ?_⟩
    · rw [hstep, Function.update_idem]
    · rw [hstep]

theorem exists_call (guarded : ∀ c, (proc c).Guarded) {s : State S C T} {t : T} {c : C}
    (hfree : s.owner = none) (hrunning : s.running t = some (c, proc c)) :
    ∃ more, (run proc s more).owner = none ∧ (run proc s more).running t = none ∧
      (run proc s more).todo t = s.todo t := by
  obtain ⟨next, hlock, hinside⟩ := (guarded c).eq_lock
  have hstep : step proc s t =
      { s with
        owner := some t
        running := Function.update s.running t (some (c, next))
        taken := s.taken ++ [(t, c)] } := by
    simp only [step, hrunning, hlock, hfree]
  obtain ⟨more, hreleased, hthere, htodo⟩ := exists_release proc c next hinside
    (s := step proc s t) (t := t) (by rw [hstep]) (by rw [hstep]; simp)
  set s' := run proc (step proc s t) more with hs'
  have hret : s'.running t = some (c, .ret) := by
    rw [hthere, Function.update_self]
  have hreturned : run proc s ([t] ++ more ++ [t]) =
      { s' with running := Function.update s'.running t none } := by
    rw [run_append, run_append]
    change step proc s' t = _
    simp only [step, hret]
  refine ⟨[t] ++ more ++ [t], ?_, ?_, ?_⟩
  · rw [hreturned]
    exact hreleased
  · rw [hreturned]
    exact Function.update_self ..
  · rw [hreturned]
    change s'.todo t = s.todo t
    rw [htodo, hstep]

theorem exists_all_calls (guarded : ∀ c, (proc c).Guarded) (cs : List C) {s : State S C T} {t : T}
    (hfree : s.owner = none) (hrunning : s.running t = none) (htodo : s.todo t = cs) :
    ∃ more, (run proc s more).running t = none ∧ (run proc s more).todo t = [] := by
  induction cs generalizing s with
  | nil => exact ⟨[], hrunning, htodo⟩
  | cons c cs ih =>
    have hstep : step proc s t =
        { s with
          running := Function.update s.running t (some (c, proc c))
          todo := Function.update s.todo t cs } := by
      simp only [step, hrunning, htodo]
    obtain ⟨more, hfree', hrunning', htodo'⟩ := exists_call guarded (s := step proc s t) (t := t)
      (c := c) (by rw [hstep]; exact hfree) (by rw [hstep]; simp)
    obtain ⟨rest, hdone⟩ := ih hfree' hrunning' (htodo'.trans (by rw [hstep]; simp))
    refine ⟨[t] ++ more ++ rest, ?_⟩
    rw [run_append, run_append]
    exact hdone

theorem exists_idle (guarded : ∀ c, (proc c).Guarded) {s : State S C T} {t : T}
    (hfree : s.owner = none) (houtside : Outside proc (s.running t)) :
    ∃ more, (run proc s more).owner = none ∧ (run proc s more).running t = none := by
  rcases houtside with hnone | ⟨c, hproc | hret⟩
  · exact ⟨[], hfree, hnone⟩
  · obtain ⟨more, hfree', hrunning, -⟩ := exists_call guarded hfree hproc
    exact ⟨more, hfree', hrunning⟩
  · refine ⟨[t], ?_⟩
    simp [run, step, hret, hfree]

/-- No thread is ever shut out: from every reachable state it can get through all its calls. -/
theorem exists_finish (guarded : ∀ c, (proc c).Guarded) (x : S) (program : T → List C)
    (schedule : List T) (t : T) :
    ∃ more, (run proc (start x program) (schedule ++ more)).running t = none ∧
      (run proc (start x program) (schedule ++ more)).callsOf t = program t := by
  have reach : ∀ more, Serialised proc x program (run proc (start x program) (schedule ++ more)) :=
    fun more => serialised_run guarded x program _
  -- first the owner leaves
  obtain ⟨out, hfree⟩ : ∃ out, (run proc (start x program) (schedule ++ out)).owner = none := by
    cases howner : (run proc (start x program) schedule).owner with
    | none => exact ⟨[], by rwa [List.append_nil]⟩
    | some u =>
      obtain ⟨c, k, hrunning, hk, -⟩ :=
        (serialised_run guarded x program schedule).inside u howner
      obtain ⟨more, hfree, -⟩ := exists_release proc c k hk howner hrunning
      exact ⟨more, by rwa [run_append]⟩
  obtain ⟨idle, hstill, hidle⟩ := exists_idle guarded hfree
    ((reach out).outside t (by simp [hfree]))
  obtain ⟨rest, hnone, hnothing⟩ := exists_all_calls guarded _ hstill hidle rfl
  rw [← run_append, ← run_append, List.append_assoc] at hnone hnothing
  have horder := (reach (out ++ (idle ++ rest))).order t
  rw [State.waiting, hnone, hnothing, List.append_nil, List.append_nil] at horder
  exact ⟨out ++ (idle ++ rest), hnone, horder⟩

end Progress

end Evi7688.Library.Monitor
