/- Evi7688/Library/SharedCursor
   digest: Writers that each set a shared cursor and then write at it, their turns in any order. -/

import Mathlib.Tactic.Common
import Mathlib.Logic.Function.Iterate
import Mathlib.Data.List.Count
import Mathlib.Data.List.Induction

set_option autoImplicit false
set_option relaxedAutoImplicit false

namespace Evi7688.Library.SharedCursor

universe u v w

/-- Where a writer sets the cursor, and what it writes there. -/
structure Job (α : Type u) (β : Type v) where
  start : α
  text : List β

/-- The cursor and the cells that all writers share, and for each writer how many turns it has had
and what it wrote. -/
structure State (P : Type w) (α : Type u) (β : Type v) where
  cursor : α
  cells : α → Option β
  turns : P → Nat
  written : P → List (α × β)

variable {P : Type w} {α : Type u} {β : Type v}

/-- A text written from a cell on, one cell after the other. -/
def placed (next : α → α) : α → List β → List (α × β)
  | _, [] => []
  | c, b :: bs => (c, b) :: placed next (next c) bs

section Cells

variable [DecidableEq α]

def store (cells : α → Option β) (ws : List (α × β)) : α → Option β :=
  ws.foldl (fun cells w => Function.update cells w.1 (some w.2)) cells

theorem store_of_notMem {ws : List (α × β)} {c : α} (h : c ∉ ws.map Prod.fst)
    (cells : α → Option β) : store cells ws c = cells c := by
  induction ws generalizing cells with
  | nil => rfl
  | cons w ws ih =>
    rw [List.map_cons, List.mem_cons, not_or] at h
    have hstep : store cells (w :: ws) = store (Function.update cells w.1 (some w.2)) ws := rfl
    rw [hstep, ih h.2, Function.update_of_ne h.1]

theorem store_of_mem {ws : List (α × β)} {c : α} (h : c ∈ ws.map Prod.fst)
    (cells cells' : α → Option β) : store cells ws c = store cells' ws c := by
  induction ws generalizing cells cells' with
  | nil => cases h
  | cons w ws ih =>
    by_cases hlater : c ∈ ws.map Prod.fst
    · exact ih hlater _ _
    · have hc : c = w.1 := by
        rw [List.map_cons, List.mem_cons] at h
        exact h.resolve_right hlater
      subst hc
      have hlast : ∀ f : α → Option β, store f (w :: ws) w.1 = some w.2 := by
        intro f
        have hstep : store f (w :: ws) = store (Function.update f w.1 (some w.2)) ws := rfl
        rw [hstep, store_of_notMem hlater, Function.update_self]
      rw [hlast, hlast]

end Cells

section Placed

variable (next : α → α)

theorem map_snd_placed (c : α) (bs : List β) : (placed next c bs).map Prod.snd = bs := by
  induction bs generalizing c with
  | nil => rfl
  | cons b bs ih => rw [placed, List.map_cons, ih]

theorem placed_eq_iff (c c' : α) (bs : List β) :
    placed next c bs = placed next c' bs ↔ bs = [] ∨ c = c' := by
  cases bs with
  | nil => simp [placed]
  | cons b bs =>
    constructor
    · intro h
      rw [placed, placed, List.cons.injEq, Prod.mk.injEq] at h
      exact Or.inr h.1.1
    · rintro (hnil | rfl)
      · cases hnil
      · rfl

end Placed

theorem store_placed_succ (cells : Nat → Option β) (c : Nat) (bs : List β) (i : Nat) :
    store cells (placed Nat.succ c bs) i =
      if c ≤ i ∧ i < c + bs.length then bs[i - c]? else cells i := by
  induction bs generalizing cells c with
  | nil =>
    rw [List.length_nil, if_neg (by omega)]
    rfl
  | cons b bs ih =>
    have hstep : store cells (placed Nat.succ c (b :: bs)) =
        store (Function.update cells c (some b)) (placed Nat.succ (c + 1) bs) := rfl
    rw [hstep, ih]
    rcases Nat.lt_trichotomy i c with hbelow | rfl | habove
    · rw [if_neg (by omega), if_neg (by omega), Function.update_of_ne (by omega)]
    · rw [if_neg (by omega), if_pos (by simp), Function.update_self]
      simp
    · have hnext : i - c = i - (c + 1) + 1 := by omega
      rw [Function.update_of_ne (by omega), hnext, List.getElem?_cons_succ]
      simp only [List.length_cons]
      split_ifs <;> first | rfl | omega

theorem counted_foldl {S : Type*} [DecidableEq P] {step : S → P → S} {count : S → P → Nat}
    (counts : ∀ s p r, count (step s r) p =
      if r = p ∧ count s p < 2 then count s p + 1 else count s p)
    {s : S} {p : P} {schedule : List P} (h : count s p + schedule.count p ≤ 2) :
    count (schedule.foldl step s) p = count s p + schedule.count p := by
  induction schedule generalizing s with
  | nil => rfl
  | cons r schedule ih =>
    rw [List.count_cons] at h ⊢
    rw [List.foldl_cons]
    by_cases hr : r = p
    · subst hr
      simp only [beq_self_eq_true, if_true] at h ⊢
      have hstep : count (step s r) r = count s r + 1 := by
        rw [counts, if_pos ⟨rfl, by omega⟩]
      rw [ih (by omega), hstep]
      omega
    · have hstep : count (step s r) p = count s p := by
        rw [counts, if_neg fun h => hr h.1]
      rw [beq_false_of_ne hr] at h ⊢
      rw [ih (by rw [hstep]; exact h), hstep]
      rfl

section Turns

variable [DecidableEq P] [DecidableEq α] (next : α → α) (jobs : P → Job α β)

/-- The first turn of a writer sets the cursor, its second one writes; it has no third. -/
def turn (s : State P α β) (p : P) : State P α β :=
  match s.turns p with
  | 0 => { s with cursor := (jobs p).start, turns := Function.update s.turns p 1 }
  | 1 =>
    { cursor := next^[(jobs p).text.length] s.cursor
      cells := store s.cells (placed next s.cursor (jobs p).text)
      turns := Function.update s.turns p 2
      written := Function.update s.written p (placed next s.cursor (jobs p).text) }
  | _ => s

def initial (cursor : α) (cells : α → Option β) : State P α β :=
  ⟨cursor, cells, fun _ => 0, fun _ => []⟩

def run (s : State P α β) (schedule : List P) : State P α β := schedule.foldl (turn next jobs) s

section Steps

variable {next jobs} {s : State P α β} {p : P}

theorem turn_first (h : s.turns p = 0) :
    turn next jobs s p =
      { s with cursor := (jobs p).start, turns := Function.update s.turns p 1 } := by
  simp only [turn, h]

theorem turn_second (h : s.turns p = 1) :
    turn next jobs s p =
      { cursor := next^[(jobs p).text.length] s.cursor
        cells := store s.cells (placed next s.cursor (jobs p).text)
        turns := Function.update s.turns p 2
        written := Function.update s.written p (placed next s.cursor (jobs p).text) } := by
  simp only [turn, h]

theorem turn_over (h : 2 ≤ s.turns p) : turn next jobs s p = s := by
  unfold turn
  split
  · omega
  · omega
  · rfl

end Steps

variable {s : State P α β} {p r : P}

theorem turn_frame (s : State P α β) (h : p ≠ r) :
    (turn next jobs s r).turns p = s.turns p ∧ (turn next jobs s r).written p = s.written p := by
  unfold turn
  split
  · exact ⟨Function.update_of_ne h _ _, rfl⟩
  · exact ⟨Function.update_of_ne h _ _, Function.update_of_ne h _ _⟩
  · exact ⟨rfl, rfl⟩

theorem turns_turn (s : State P α β) (p r : P) :
    (turn next jobs s r).turns p =
      if r = p ∧ s.turns p < 2 then s.turns p + 1 else s.turns p := by
  by_cases hr : r = p
  · subst hr
    obtain hset | hwrite | hover : s.turns r = 0 ∨ s.turns r = 1 ∨ 2 ≤ s.turns r := by omega
    · rw [turn_first hset, hset]
      simp
    · rw [turn_second hwrite, hwrite]
      simp
    · rw [turn_over hover, if_neg fun h => Nat.not_lt.mpr hover h.2]
  · rw [(turn_frame next jobs s (Ne.symm hr)).1, if_neg fun h => hr h.1]

theorem turns_turn_self (h : s.turns p < 2) : (turn next jobs s p).turns p = s.turns p + 1 := by
  rw [turns_turn, if_pos ⟨rfl, h⟩]

theorem run_snoc (s : State P α β) (schedule : List P) (r : P) :
    run next jobs s (schedule ++ [r]) = turn next jobs (run next jobs s schedule) r := by
  rw [run, List.foldl_append]
  rfl

theorem run_append (s : State P α β) (xs ys : List P) :
    run next jobs s (xs ++ ys) = run next jobs (run next jobs s xs) ys :=
  List.foldl_append

theorem run_frame {schedule : List P} (h : p ∉ schedule) (s : State P α β) :
    (run next jobs s schedule).turns p = s.turns p ∧
      (run next jobs s schedule).written p = s.written p := by
  induction schedule using List.reverseRecOn with
  | nil => exact ⟨rfl, rfl⟩
  | append_singleton schedule r ih =>
    rw [List.mem_append, List.mem_singleton, not_or] at h
    obtain ⟨hturns, hwritten⟩ := turn_frame next jobs (run next jobs s schedule) h.2
    obtain ⟨hturns', hwritten'⟩ := ih h.1
    rw [run_snoc]
    exact ⟨hturns.trans hturns', hwritten.trans hwritten'⟩

theorem turns_run {schedule : List P} (h : s.turns p + schedule.count p ≤ 2) :
    (run next jobs s schedule).turns p = s.turns p + schedule.count p :=
  counted_foldl (turns_turn next jobs) h

theorem written_run {pre mid post : List P} (hpre : p ∉ pre) (hmid : p ∉ mid) (hpost : p ∉ post)
    (h : s.turns p = 0) :
    (run next jobs s (pre ++ p :: (mid ++ p :: post))).written p =
      placed next (run next jobs s (pre ++ p :: mid)).cursor (jobs p).text := by
  have hsplit : pre ++ p :: (mid ++ p :: post) = ((pre ++ p :: mid) ++ [p]) ++ post := by
    simp
  have hcount : (pre ++ p :: mid).count p = 1 := by
    rw [List.count_append, List.count_cons_self, List.count_eq_zero.mpr hpre,
      List.count_eq_zero.mpr hmid]
  have hturns : (run next jobs s (pre ++ p :: mid)).turns p = 1 := by
    rw [turns_run next jobs (by omega)]
    omega
  rw [hsplit, run_append, (run_frame next jobs hpost _).2, run_snoc, turn_second hturns]
  exact Function.update_self _ _ _

end Turns

section Cells

variable [DecidableEq P] [DecidableEq α] {next : α → α} {jobs : P → Job α β}

/-- No two writers have written in the same cell. -/
def Apart (written : P → List (α × β)) : Prop :=
  ∀ p q, p ≠ q → List.Disjoint ((written p).map Prod.fst) ((written q).map Prod.fst)

/-- The cells of every writer hold what it wrote there last. -/
def Shown (s : State P α β) : Prop :=
  ∀ p, ∀ c ∈ (s.written p).map Prod.fst, s.cells c = store (fun _ => none) (s.written p) c

def Fresh (s : State P α β) : Prop := ∀ p, s.turns p < 2 → s.written p = []

theorem fresh_turn {s : State P α β} (fresh : Fresh s) (r : P) : Fresh (turn next jobs s r) := by
  intro p hp
  by_cases hr : p = r
  · subst hr
    have hbefore : s.turns p < 2 := by
      by_contra hover
      rw [turn_over (by omega)] at hp
      omega
    have hturns := turns_turn_self next jobs hbefore
    rw [turn_first (by omega)]
    exact fresh p hbefore
  · obtain ⟨hturns, hwritten⟩ := turn_frame next jobs s hr
    rw [hwritten]
    exact fresh p (hturns ▸ hp)

theorem apart_of_turn {s : State P α β} (fresh : Fresh s) {r : P}
    (apart : Apart (turn next jobs s r).written) : Apart s.written := by
  have hkept : ∀ p, s.written p = [] ∨ s.written p = (turn next jobs s r).written p := by
    intro p
    by_cases hr : p = r
    · subst hr
      rcases Nat.lt_or_ge (s.turns p) 2 with hbefore | hover
      · exact Or.inl (fresh p hbefore)
      · rw [turn_over hover]
        exact Or.inr rfl
    · exact Or.inr (turn_frame next jobs s hr).2.symm
  intro p q hpq
  rcases hkept p with hp | hp
  · rw [hp]
    exact List.disjoint_nil_left _
  · rcases hkept q with hq | hq
    · rw [hq]
      exact List.disjoint_nil_right _
    · rw [hp, hq]
      exact apart p q hpq

theorem shown_turn {s : State P α β} (shown : Shown s) {r : P}
    (apart : Apart (turn next jobs s r).written) : Shown (turn next jobs s r) := by
  rcases Nat.lt_or_ge (s.turns r) 2 with hbefore | hover
  · rcases Nat.lt_or_ge (s.turns r) 1 with hnone | hone
    · rw [turn_first (by omega)]
      exact shown
    · have hone : s.turns r = 1 := by omega
      intro p c hc
      have hcells : (turn next jobs s r).cells = store s.cells ((turn next jobs s r).written r) := by
        rw [turn_second hone]
        simp only [Function.update_self]
      rw [hcells]
      by_cases hr : p = r
      · subst hr
        exact store_of_mem hc _ _
      · have hother : c ∉ ((turn next jobs s r).written r).map Prod.fst := apart p r hr hc
        rw [store_of_notMem hother]
        have hwritten := (turn_frame next jobs s hr).2
        rw [hwritten] at hc ⊢
        exact shown p c hc
  · rw [turn_over hover]
    exact shown

/-- If the writers of a run keep apart, everything they wrote is still there at its end. -/
theorem shown_run (cursor : α) (cells : α → Option β) {schedule : List P}
    (apart : Apart (run next jobs (initial cursor cells) schedule).written) :
    Shown (run next jobs (initial cursor cells) schedule) := by
  have fresh : ∀ schedule : List P, Fresh (run next jobs (initial cursor cells) schedule) := by
    intro schedule
    induction schedule using List.reverseRecOn with
    | nil => exact fun _ _ => rfl
    | append_singleton schedule r ih =>
      rw [run_snoc]
      exact fresh_turn ih r
  induction schedule using List.reverseRecOn with
  | nil => exact fun _ _ hc => absurd hc List.not_mem_nil
  | append_singleton schedule r ih =>
    rw [run_snoc] at apart ⊢
    exact shown_turn (ih (apart_of_turn (fresh schedule) apart)) apart

end Cells

section TwoWriters

variable [DecidableEq P] [DecidableEq α] (next : α → α)

/-- How many turns come before the first one of `p`. -/
def before (schedule : List P) (p : P) : Nat := (schedule.takeWhile (· ≠ p)).length

/-- How many turns come between the first two of `p`. -/
def between (schedule : List P) (p : P) : Nat :=
  before ((schedule.dropWhile (· ≠ p)).drop 1) p

/-- The other writer leaves the cursor where `p` set it: it has no turn in between, or only the one
that sets the cursor, or only the one that writes, or both. -/
def Undisturbed (p q : Job α β) : (before between : Nat) → Prop
  | _, 0 => True
  | 0, 1 => q.start = p.start
  | _ + 1, _ => next^[q.text.length] p.start = p.start
  | 0, _ => next^[q.text.length] q.start = p.start

theorem exists_turns {schedule : List P} {p : P} (h : schedule.count p = 2) :
    ∃ pre mid post, schedule = pre ++ p :: (mid ++ p :: post) ∧ p ∉ pre ∧ p ∉ mid ∧ p ∉ post := by
  have hfirst : p ∈ schedule := List.count_pos_iff.mp (by omega)
  obtain ⟨pre, rest, rfl, hpre⟩ := List.eq_append_cons_of_mem hfirst
  rw [List.count_append, List.count_cons_self, List.count_eq_zero.mpr hpre] at h
  have hsecond : p ∈ rest := List.count_pos_iff.mp (by omega)
  obtain ⟨mid, post, rfl, hmid⟩ := List.eq_append_cons_of_mem hsecond
  rw [List.count_append, List.count_cons_self, List.count_eq_zero.mpr hmid] at h
  exact ⟨pre, mid, post, rfl, hpre, hmid, List.count_eq_zero.mp (by omega)⟩

theorem before_eq {pre rest : List P} {p : P} (hpre : p ∉ pre) :
    before (pre ++ p :: rest) p = pre.length := by
  have hne : ∀ r ∈ pre, decide (r ≠ p) = true := by
    intro r hr
    exact decide_eq_true fun heq => hpre (heq ▸ hr)
  rw [before, List.takeWhile_append_of_pos hne]
  simp

theorem between_eq {pre mid post : List P} {p : P} (hpre : p ∉ pre) (hmid : p ∉ mid) :
    between (pre ++ p :: (mid ++ p :: post)) p = mid.length := by
  have hne : ∀ r ∈ pre, decide (r ≠ p) = true := by
    intro r hr
    exact decide_eq_true fun heq => hpre (heq ▸ hr)
  have hrest : ((pre ++ p :: (mid ++ p :: post)).dropWhile (· ≠ p)).drop 1 = mid ++ p :: post := by
    rw [List.dropWhile_append_of_pos hne]
    simp
  rw [between, hrest, before_eq hmid]

variable {next} {jobs : P → Job α β} {p q : P}

theorem cursor_eq_iff {s : State P α β} (hs : s.cursor = (jobs p).start) (more : Nat)
    (hmore : s.turns q + more ≤ 2) :
    (run next jobs s (List.replicate more q)).cursor = (jobs p).start ↔
      Undisturbed next (jobs p) (jobs q) (s.turns q) more := by
  obtain hnone | hone | htwo : more = 0 ∨ more = 1 ∨ more = 2 := by omega
  · subst hnone
    exact iff_of_true hs trivial
  · subst hone
    have hrun : run next jobs s (List.replicate 1 q) = turn next jobs s q := rfl
    obtain hset | hwrite : s.turns q = 0 ∨ s.turns q = 1 := by omega
    · rw [hrun, turn_first hset, hset]
      rfl
    · rw [hrun, turn_second hwrite, hwrite, hs]
      rfl
  · subst htwo
    have hset : s.turns q = 0 := by omega
    have hrun : run next jobs s (List.replicate 2 q) =
        turn next jobs (turn next jobs s q) q := rfl
    have hwrite : (turn next jobs s q).turns q = 1 := by
      rw [turns_turn_self next jobs (by omega), hset]
    rw [hrun, turn_second hwrite, turn_first hset, hset]
    rfl

omit [DecidableEq P] in
theorem exists_replicate {part : List P} (only : ∀ r ∈ part, r = p ∨ r = q) (h : p ∉ part) :
    ∃ i, part = List.replicate i q := by
  refine ⟨part.length, List.eq_replicate_of_mem fun r hr => ?_⟩
  exact (only r hr).resolve_left fun heq => h (heq ▸ hr)

theorem cursor_at_second_iff {s : State P α β} (hpq : p ≠ q) (hp : s.turns p = 0)
    (hq : s.turns q = 0) {i j : Nat} (h : i + j ≤ 2) :
    (run next jobs s (List.replicate i q ++ p :: List.replicate j q)).cursor = (jobs p).start ↔
      Undisturbed next (jobs p) (jobs q) i j := by
  have hnot : p ∉ List.replicate i q := by
    intro hmem
    exact hpq (List.eq_of_mem_replicate hmem)
  have hfirst : (run next jobs s (List.replicate i q)).turns p = 0 :=
    (run_frame next jobs hnot s).1.trans hp
  have hcursor : (turn next jobs (run next jobs s (List.replicate i q)) p).cursor =
      (jobs p).start := by
    rw [turn_first hfirst]
  have hturns : (turn next jobs (run next jobs s (List.replicate i q)) p).turns q = i := by
    have hcount : (List.replicate i q).count q = i := List.count_replicate_self
    rw [(turn_frame next jobs _ (Ne.symm hpq)).1, turns_run next jobs (by omega), hq, hcount,
      Nat.zero_add]
  have hsplit : List.replicate i q ++ p :: List.replicate j q =
      (List.replicate i q ++ [p]) ++ List.replicate j q := by
    rw [List.append_assoc, List.singleton_append]
  rw [hsplit, run_append, run_snoc, cursor_eq_iff hcursor j (by omega), hturns]

/-- Of two writers, `p` writes at its own start exactly when its text is empty or the other one
leaves the cursor there. -/
theorem written_iff {s : State P α β} (hpq : p ≠ q) (hp : s.turns p = 0) (hq : s.turns q = 0)
    {schedule : List P} (only : ∀ r ∈ schedule, r = p ∨ r = q) (twice : schedule.count p = 2)
    (other : schedule.count q ≤ 2) :
    (run next jobs s schedule).written p = placed next (jobs p).start (jobs p).text ↔
      (jobs p).text = [] ∨
        Undisturbed next (jobs p) (jobs q) (before schedule p) (between schedule p) := by
  obtain ⟨pre, mid, post, rfl, hpre, hmid, hpost⟩ := exists_turns twice
  obtain ⟨i, rfl⟩ := exists_replicate (fun r hr => only r (by simp [hr])) hpre
  obtain ⟨j, rfl⟩ := exists_replicate (fun r hr => only r (by simp [hr])) hmid
  have hcount : i + j ≤ 2 := by
    rw [List.count_append, List.count_cons, List.count_append, List.count_replicate_self,
      List.count_replicate_self] at other
    omega
  rw [written_run next jobs hpre hmid hpost hp, placed_eq_iff, before_eq hpre,
    between_eq hpre hmid, List.length_replicate, List.length_replicate,
    cursor_at_second_iff hpq hp hq hcount]

end TwoWriters

end Evi7688.Library.SharedCursor
