/- Evi7688/Library/SharedCell
   digest: Two clients that each prepare, load a shared cell, store an updated value and finish, in any order. -/

import Mathlib.Tactic.Common
import Mathlib.Logic.Function.Basic
import Mathlib.Data.List.Induction

set_option autoImplicit false
set_option relaxedAutoImplicit false

namespace Evi7688.Library.SharedCell

universe u v

/-- Where a client stands; a client that has loaded keeps what it saw. -/
inductive Phase (β : Type v)
  | start
  | prepared
  | loaded (seen : β)
  | stored
  | finished
  deriving DecidableEq

structure State (α : Type u) (β : Type v) where
  cell : α
  phase : Bool → Phase β

variable {α : Type u} {β : Type v}

/-- One step of client `p`: what it loads is a function of the cell, what it stores a function of
what it loaded. -/
def step (load : α → β) (store : Bool → β → α) (s : State α β) (p : Bool) : State α β :=
  match s.phase p with
  | .start => { s with phase := Function.update s.phase p .prepared }
  | .prepared => { s with phase := Function.update s.phase p (.loaded (load s.cell)) }
  | .loaded seen => ⟨store p seen, Function.update s.phase p .stored⟩
  | .stored => { s with phase := Function.update s.phase p .finished }
  | .finished => s

def initial (x : α) : State α β := ⟨x, fun _ => .start⟩

def run (load : α → β) (store : Bool → β → α) (x : α) (schedule : List Bool) : State α β :=
  schedule.foldl (step load store) (initial x)

def BothLoaded (s : State α β) : Prop := ∀ p, ∃ seen, s.phase p = .loaded seen

def Finished (s : State α β) : Prop := ∀ p, s.phase p = .finished

/-- Client `p` stored while the other had loaded and not yet stored. -/
def Overlapped (load : α → β) (store : Bool → β → α) (x : α) (schedule : List Bool) (p : Bool) :
    Prop :=
  ∃ pre post, schedule = pre ++ p :: post ∧ BothLoaded (run load store x pre)

/-- How far the two stores have come: none, one by `p`, or two with `p` the first. The flag tells
whether the other client had loaded before the first store. -/
inductive Progress
  | none
  | one (p stale : Bool)
  | two (p stale : Bool)
  deriving DecidableEq

def Progress.Stale (g : Progress) (p : Bool) : Prop := g = .one p true ∨ g = .two p true

def Early (seen : β) (ph : Phase β) : Prop := ph = .start ∨ ph = .prepared ∨ ph = .loaded seen

def Late (ph : Phase β) : Prop := ph = .stored ∨ ph = .finished

section Invariant

variable (load : α → β) (store : Bool → β → α) (x : α)

def updated (p : Bool) (y : α) : α := store p (load y)

def Fits (s : State α β) : Progress → Prop
  | .none => s.cell = x ∧ ∀ p, Early (load x) (s.phase p)
  | .one p true => s.cell = updated load store p x ∧ Late (s.phase p) ∧
      s.phase (!p) = .loaded (load x)
  | .one p false => s.cell = updated load store p x ∧ Late (s.phase p) ∧
      Early (load (updated load store p x)) (s.phase (!p))
  | .two p true => s.cell = updated load store (!p) x ∧ ∀ q, Late (s.phase q)
  | .two p false => s.cell = updated load store (!p) (updated load store p x) ∧
      ∀ q, Late (s.phase q)

theorem Late.not_loaded {ph : Phase β} (h : Late ph) (seen : β) : ph ≠ .loaded seen := by
  rintro rfl
  rcases h with h | h <;> cases h

theorem bool_eq_or (p q : Bool) : q = p ∨ q = !p := by
  cases p <;> cases q <;> simp

theorem step_frame (s : State α β) {q r : Bool} (h : q ≠ r) :
    (step load store s r).phase q = s.phase q := by
  unfold step
  split <;> first | exact Function.update_of_ne h _ _ | rfl

theorem step_late {s : State α β} {r : Bool} (h : Late (s.phase r)) :
    (step load store s r).cell = s.cell ∧ Late ((step load store s r).phase r) := by
  rcases h with h | h
  · have hstep : step load store s r =
        { s with phase := Function.update s.phase r .finished } := by simp only [step, h]
    rw [hstep]
    exact ⟨rfl, Or.inr (Function.update_self _ _ _)⟩
  · have hstep : step load store s r = s := by simp only [step, h]
    rw [hstep]
    exact ⟨rfl, Or.inr h⟩

theorem step_early {s : State α β} {r : Bool} (h : Early (load s.cell) (s.phase r)) :
    ((step load store s r).cell = s.cell ∧ Early (load s.cell) ((step load store s r).phase r) ∧
      ∀ seen, s.phase r ≠ .loaded seen) ∨
    s.phase r = .loaded (load s.cell) := by
  rcases h with h | h | h
  · have hstep : step load store s r =
        { s with phase := Function.update s.phase r .prepared } := by simp only [step, h]
    rw [hstep]
    exact Or.inl ⟨rfl, Or.inr (Or.inl (Function.update_self _ _ _)), by simp [h]⟩
  · have hstep : step load store s r =
        { s with phase := Function.update s.phase r (.loaded (load s.cell)) } := by
      simp only [step, h]
    rw [hstep]
    exact Or.inl ⟨rfl, Or.inr (Or.inr (Function.update_self _ _ _)), by simp [h]⟩
  · exact Or.inr h

theorem step_loaded {s : State α β} {r : Bool} {seen : β} (h : s.phase r = .loaded seen) :
    (step load store s r).cell = store r seen ∧ Late ((step load store s r).phase r) := by
  have hstep : step load store s r =
      ⟨store r seen, Function.update s.phase r .stored⟩ := by simp only [step, h]
  rw [hstep]
  exact ⟨rfl, Or.inl (Function.update_self _ _ _)⟩

theorem not_bothLoaded {s : State α β} {p : Bool} (h : ∀ seen, s.phase p ≠ .loaded seen) :
    ¬ BothLoaded s := by
  intro both
  obtain ⟨seen, hseen⟩ := both p
  exact h seen hseen

/-- A step from progress `g` leads to some progress, and a client turns stale exactly when the other
stores while both have loaded. -/
def Advances (s : State α β) (r : Bool) (g : Progress) : Prop :=
  ∃ g', Fits load store x (step load store s r) g' ∧
    ∀ p, g'.Stale p ↔ g.Stale p ∨ (r = p ∧ BothLoaded s)

theorem Early.loaded_or {seen other : β} {ph : Phase β} (h : Early seen ph) :
    ph = .loaded seen ∨ Early other ph ∧ ∀ v, ph ≠ .loaded v := by
  rcases h with rfl | rfl | h
  · exact Or.inr ⟨Or.inl rfl, nofun⟩
  · exact Or.inr ⟨Or.inr (Or.inl rfl), nofun⟩
  · exact Or.inl h

theorem advances_none {s : State α β} (h : Fits load store x s .none) (r : Bool) :
    Advances load store x s r .none := by
  obtain ⟨hcell, hearly⟩ := h
  have hframe : (step load store s r).phase (!r) = s.phase (!r) :=
    step_frame load store s (by simp)
  have hr := hearly r
  rw [← hcell] at hr
  rcases step_early load store hr with ⟨hcell', hearly', hnot⟩ | hloaded
  · -- Nobody stores.
    refine ⟨.none, ⟨hcell'.trans hcell, fun q => ?_⟩, fun p => ?_⟩
    · rcases bool_eq_or r q with rfl | rfl
      · rw [← hcell]
        exact hearly'
      · rw [hframe]
        exact hearly _
    · simp [Progress.Stale, not_bothLoaded hnot]
  · obtain ⟨hcell', hlate⟩ := step_loaded load store hloaded
    rw [hcell] at hloaded hcell'
    rcases (hearly (!r)).loaded_or with hother | ⟨hrest, hnot⟩
    · have both : BothLoaded s := by
        intro q
        rcases bool_eq_or r q with rfl | rfl
        · exact ⟨_, hloaded⟩
        · exact ⟨_, hother⟩
      refine ⟨.one r true, ⟨hcell', hlate, hframe.trans hother⟩, fun p => ?_⟩
      simp [Progress.Stale, both]
    · refine ⟨.one r false, ⟨hcell', hlate, hframe ▸ hrest⟩, fun p => ?_⟩
      simp [Progress.Stale, not_bothLoaded hnot]

theorem advances_one_self {s : State α β} {p stale : Bool}
    (h : Fits load store x s (.one p stale)) : Advances load store x s p (.one p stale) := by
  have hframe : (step load store s p).phase (!p) = s.phase (!p) :=
    step_frame load store s (by simp)
  have hlate : Late (s.phase p) := by
    cases stale <;> exact h.2.1
  obtain ⟨hcell', hlate'⟩ := step_late load store hlate
  refine ⟨.one p stale, ?_, by simp [not_bothLoaded hlate.not_loaded]⟩
  cases stale with
  | true => exact ⟨hcell'.trans h.1, hlate', hframe.trans h.2.2⟩
  | false => exact ⟨hcell'.trans h.1, hlate', hframe ▸ h.2.2⟩

theorem advances_one_other {s : State α β} {p stale : Bool}
    (h : Fits load store x s (.one p stale)) : Advances load store x s (!p) (.one p stale) := by
  have hframe : (step load store s (!p)).phase p = s.phase p := step_frame load store s (by simp)
  have hlate : Late (s.phase p) := by
    cases stale <;> exact h.2.1
  have hnot := not_bothLoaded hlate.not_loaded
  have hboth : Late ((step load store s (!p)).phase (!p)) →
      ∀ q, Late ((step load store s (!p)).phase q) := by
    intro hother q
    rcases bool_eq_or p q with rfl | rfl
    · exact hframe ▸ hlate
    · exact hother
  cases stale with
  | true =>
    obtain ⟨hcell', hlate'⟩ := step_loaded load store h.2.2
    refine ⟨.two p true, ⟨hcell', hboth hlate'⟩, ?_⟩
    simp [Progress.Stale, hnot]
  | false =>
    obtain ⟨hcell, -, hearly⟩ := h
    rw [← hcell] at hearly
    rcases step_early load store hearly with ⟨hcell', hearly', -⟩ | hloaded
    · refine ⟨.one p false, ⟨hcell'.trans hcell, hframe ▸ hlate, hcell ▸ hearly'⟩, ?_⟩
      simp [Progress.Stale, hnot]
    · obtain ⟨hcell', hlate'⟩ := step_loaded load store hloaded
      rw [hcell] at hcell'
      refine ⟨.two p false, ⟨hcell', hboth hlate'⟩, ?_⟩
      simp [Progress.Stale, hnot]

theorem advances_two {s : State α β} {p stale : Bool} (h : Fits load store x s (.two p stale))
    (r : Bool) : Advances load store x s r (.two p stale) := by
  have hframe : (step load store s r).phase (!r) = s.phase (!r) :=
    step_frame load store s (by simp)
  have hlate : ∀ q, Late (s.phase q) := by
    cases stale <;> exact h.2
  obtain ⟨hcell', hlate'⟩ := step_late load store (hlate r)
  have hall : ∀ q, Late ((step load store s r).phase q) := by
    intro q
    rcases bool_eq_or r q with rfl | rfl
    · exact hlate'
    · exact hframe ▸ hlate _
  refine ⟨.two p stale, ?_, by simp [not_bothLoaded (hlate p).not_loaded]⟩
  cases stale <;> exact ⟨hcell'.trans h.1, hall⟩

theorem fits_step {s : State α β} {g : Progress} (h : Fits load store x s g) (r : Bool) :
    Advances load store x s r g := by
  cases g with
  | none => exact advances_none load store x h r
  | one p stale =>
    rcases bool_eq_or p r with rfl | rfl
    · exact advances_one_self load store x h
    · exact advances_one_other load store x h
  | two p stale => exact advances_two load store x h r

theorem run_snoc (schedule : List Bool) (r : Bool) :
    run load store x (schedule ++ [r]) = step load store (run load store x schedule) r := by
  simp [run]

theorem overlapped_snoc_iff (schedule : List Bool) (r p : Bool) :
    Overlapped load store x (schedule ++ [r]) p ↔
      Overlapped load store x schedule p ∨ (r = p ∧ BothLoaded (run load store x schedule)) := by
  constructor
  · rintro ⟨pre, post, heq, both⟩
    rcases List.eq_nil_or_concat post with rfl | ⟨post, q, rfl⟩
    · obtain ⟨rfl, hr⟩ := List.append_inj' heq rfl
      obtain rfl := List.singleton_inj.mp hr
      exact Or.inr ⟨rfl, both⟩
    · have hsplit : schedule ++ [r] = (pre ++ p :: post) ++ [q] := by
        rw [heq]
        simp
      obtain ⟨hschedule, -⟩ := List.append_inj' hsplit rfl
      exact Or.inl ⟨pre, post, hschedule, both⟩
  · rintro (⟨pre, post, rfl, both⟩ | ⟨rfl, both⟩)
    · exact ⟨pre, post ++ [r], by simp, both⟩
    · exact ⟨schedule, [], rfl, both⟩

/-- Every run fits some progress, and its stale client is the one that was overlapped. -/
theorem fits_run (schedule : List Bool) :
    ∃ g, Fits load store x (run load store x schedule) g ∧
      ∀ p, g.Stale p ↔ Overlapped load store x schedule p := by
  induction schedule using List.reverseRecOn with
  | nil =>
    refine ⟨.none, ⟨rfl, fun _ => Or.inl rfl⟩, fun p => ?_⟩
    simp [Progress.Stale, Overlapped]
  | append_singleton schedule r ih =>
    obtain ⟨g, hfits, hstale⟩ := ih
    obtain ⟨g', hfits', hstep⟩ := fits_step load store x hfits r
    refine ⟨g', by rw [run_snoc]; exact hfits', fun p => ?_⟩
    rw [hstep, hstale, overlapped_snoc_iff]

/-- When both clients have finished, the cell holds the two updates one after the other, unless the
second client had loaded before the first one stored: then it holds the second update alone. -/
theorem cell_of_finished {schedule : List Bool}
    (finished : Finished (run load store x schedule)) :
    ∃ p, ((∀ q, Overlapped load store x schedule q ↔ q = p) ∧
        (run load store x schedule).cell = updated load store (!p) x) ∨
      ((∀ q, ¬ Overlapped load store x schedule q) ∧
        (run load store x schedule).cell =
          updated load store (!p) (updated load store p x)) := by
  obtain ⟨g, hfits, hstale⟩ := fits_run load store x schedule
  cases g with
  | none =>
    have hearly := hfits.2 true
    rw [finished true] at hearly
    rcases hearly with h | h | h <;> cases h
  | one p stale =>
    cases stale with
    | true =>
      have hloaded := hfits.2.2
      rw [finished (!p)] at hloaded
      cases hloaded
    | false =>
      have hearly := hfits.2.2
      rw [finished (!p)] at hearly
      rcases hearly with h | h | h <;> cases h
  | two p stale =>
    refine ⟨p, ?_⟩
    cases stale with
    | true =>
      refine Or.inl ⟨fun q => ?_, hfits.1⟩
      rw [← hstale q, Progress.Stale]
      simp [eq_comm]
    | false =>
      refine Or.inr ⟨fun q hq => ?_, hfits.1⟩
      rcases (hstale q).mpr hq with h | h <;> cases h

end Invariant

end Evi7688.Library.SharedCell
