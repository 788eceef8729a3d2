/- Evi7688/Libevi/Suppression
   digest: Which calls are skipped, and when these are the ones that repeat their predecessor. -/

import Evi7688.Libevi.PanelContents

set_option autoImplicit false
set_option relaxedAutoImplicit false

namespace Evi7688.Libevi.Suppression

open Evi7688.Library.Bytes (CString)
open Hal
open Screens
open PanelContents (lastOf RepeatsKey holds_iff_repeatsKey)

def keptArgument (s : Option CString) : CString := (s.getD .empty).truncate 47

/-- The call that passes what the cache keeps of this one; a call without string arguments passes
null pointers, which are kept as empty strings and never found again. -/
def kept : Screen → Option Screen
  | .info1 m s => some (.info1 (some (keptArgument m)) (some (keptArgument s)))
  | .info2 sn pn => some (.info2 (some (keptArgument sn)) (some (keptArgument pn)))
  | .info3 mv mc => some (.info3 (some (keptArgument mv)) (some (keptArgument mc)))
  | .info4 m2 c2 => some (.info4 (some (keptArgument m2)) (some (keptArgument c2)))
  | .getMValue a b => some (.getMValue (some (keptArgument a)) (some (keptArgument b)))
  | .dispComplete a b => some (.dispComplete (some (keptArgument a)) (some (keptArgument b)))
  | _ => none

/-- Two strings that are kept whole. -/
def Remembered (c : Screen) : Prop :=
  ∃ a b, c.key.a = some a ∧ c.key.b = some b ∧ a.bytes.length ≤ 47 ∧ b.bytes.length ≤ 47

/-- In a run of calls, `p` is the last one before `c` at its place that goes to the same module. -/
def Precedes (cs pre : List Screen) (p c : Screen) : Prop :=
  pre ++ [c] <+: cs ∧ lastOf c.key.cache pre = some p

/-- A call after the first of its module issues nothing if it repeats the one before it, and draws
its screen otherwise. -/
def SkipsRepeats (cs : List Screen) : Prop :=
  ∀ pre p c, Precedes cs pre p c →
    (c.call (runScreens pre).statics).1 = if c = p then [] else c.drawn

theorem hits_stored_iff (p c : Screen) : c.key.Hits p.key.stored ↔ kept p = some c := by
  simp only [Key.Hits, Key.stored]
  cases c with
  | getMValue a b =>
    cases p <;> simp only [Screen.key, kept, keptArgument] <;> (try split_ifs) <;> simp [eq_comm]
  | dispComplete a b =>
    cases p <;> simp only [Screen.key, kept, keptArgument] <;> (try split_ifs) <;> simp [eq_comm]
  | info1 | info2 | info3 | info4 => cases p <;> simp [Screen.key, kept, keptArgument, eq_comm]
  | _ => cases p <;> simp [Screen.key, kept]

theorem truncate_eq_self_iff {s : CString} : s.truncate 47 = s ↔ s.bytes.length ≤ 47 := by
  constructor
  · intro h
    rw [← h]
    exact List.length_take_le _ _
  · intro h
    exact CString.ext (List.take_of_length_le h)

theorem hits_own_iff (c : Screen) : c.key.Hits c.key.stored ↔ Remembered c := by
  constructor
  · rintro ⟨-, ha, hb, -⟩
    simp only [Key.stored] at ha hb
    refine ⟨_, _, ha, hb, List.length_take_le _ _, List.length_take_le _ _⟩
  · rintro ⟨a, b, ha, hb, hashort, hbshort⟩
    refine ⟨rfl, ?_, ?_, rfl⟩
    · simp only [Key.stored, ha, Option.getD_some, truncate_eq_self_iff.mpr hashort]
    · simp only [Key.stored, hb, Option.getD_some, truncate_eq_self_iff.mpr hbshort]

theorem drawn_ne_nil (c : Screen) : c.drawn ≠ [] := by
  obtain ⟨body, -, hdrawn⟩ := c.drawn_eq
  rw [hdrawn]
  exact List.cons_ne_nil _ _

theorem issues_of_precedes {cs pre : List Screen} {p c : Screen} (h : Precedes cs pre p c) :
    (c.call (runScreens pre).statics).1 = if kept p = some c then [] else c.drawn := by
  have hfound : (runScreens pre).statics.Holds c.key ↔ kept p = some c := by
    rw [holds_iff_repeatsKey, ← hits_stored_iff]
    constructor
    · rintro ⟨q, hq, hhits⟩
      rw [h.2, Option.some.injEq] at hq
      exact hq ▸ hhits
    · intro hhits
      exact ⟨p, h.2, hhits⟩
  split_ifs with hkept
  · rw [c.call_of_holds (hfound.mpr hkept)]
  · rw [c.call_of_not_holds (mt hfound.mp hkept)]

/-- The calls skipped are the repeated ones exactly if every repeated call passes two strings of at
most 47 bytes, and no other call passes what was kept of the call before it. -/
theorem skipsRepeats_iff (cs : List Screen) :
    SkipsRepeats cs ↔ ∀ pre p c, Precedes cs pre p c →
      (c = p → Remembered c) ∧ (c ≠ p → kept p ≠ some c) := by
  have hstep : ∀ pre p c, Precedes cs pre p c →
      ((c.call (runScreens pre).statics).1 = (if c = p then [] else c.drawn) ↔
        (c = p → Remembered c) ∧ (c ≠ p → kept p ≠ some c)) := by
    intro pre p c h
    rw [issues_of_precedes h]
    by_cases hsame : c = p
    · subst hsame
      have hown : kept c = some c ↔ Remembered c := by rw [← hits_stored_iff, hits_own_iff]
      rw [if_pos rfl, ← hown]
      constructor
      · intro hskip
        refine ⟨fun _ => ?_, fun hne => absurd rfl hne⟩
        by_contra hlost
        rw [if_neg hlost] at hskip
        exact drawn_ne_nil c hskip
      · intro hkept
        rw [if_pos (hkept.1 rfl)]
    · rw [if_neg hsame]
      constructor
      · intro hdraws
        refine ⟨fun heq => absurd heq hsame, fun _ hkept => ?_⟩
        rw [if_pos hkept] at hdraws
        exact drawn_ne_nil c hdraws.symm
      · intro hother
        rw [if_neg (hother.2 hsame)]
  constructor
  · intro hskips pre p c h
    exact (hstep pre p c h).mp (hskips pre p c h)
  · intro hcond pre p c h
    exact (hstep pre p c h).mpr (hcond pre p c h)

/-- The same screen twice, without arguments: it is drawn twice. -/
theorem initial_drawn_twice : ¬ SkipsRepeats [.initial, .initial] := by
  intro hskips
  have hsecond := hskips [.initial] .initial .initial ⟨List.prefix_refl _, rfl⟩
  rw [if_pos rfl] at hsecond
  revert hsecond
  decide +kernel

end Evi7688.Libevi.Suppression
