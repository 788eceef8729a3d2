/- Evi7688/Libevi/PanelContents
   digest: What the panel shows after a run of screens, and when a skipped redraw shows the wrong screen. -/

import Evi7688.Libevi.Screens
import Mathlib.Data.List.DropRight

set_option autoImplicit false
set_option relaxedAutoImplicit false

namespace Evi7688.Libevi.PanelContents

open Evi7688.Library.Bytes (CString literal)
open Hal
open Caption
open Screens

def clearOp : HalOp := .writeInstr displayClear

def sinceClear (ops : List HalOp) : List HalOp := ops.rtakeWhile (· ≠ clearOp)

/-- The panel shows the screen of a call: since the last clear it received what the call draws. -/
def Shows (issued : List HalOp) (c : Screen) : Prop := sinceClear issued = sinceClear c.drawn

instance (issued : List HalOp) (c : Screen) : Decidable (Shows issued c) :=
  inferInstanceAs (Decidable (_ = _))

/-- After every call of the run the panel shows the screen of that call. -/
def AlwaysShows (cs : List Screen) : Prop :=
  ∀ pre c, pre ++ [c] <+: cs → Shows (runScreens (pre ++ [c])).issued c

def face : Screen → Screen
  | .info1 m s => .info1 (some (m.getD .empty)) (some (s.getD .empty))
  | .info2 sn pn => .info2 (some (sn.getD .empty)) (some (pn.getD .empty))
  | .info3 mv mc => .info3 (some (mv.getD .empty)) (some (mc.getD .empty))
  | .info4 m2 c2 => .info4 (some (m2.getD .empty)) (some (c2.getD .empty))
  | .standby d => .standby (if d > 0 then 1 else 0)
  | .authWaiting s => .authWaiting (if s.tmod 2 = 0 then 0 else 1)
  | .plugInWaiting s => .plugInWaiting (if s.tmod 2 = 0 then 0 else 1)
  | .getMValue _ _ => .getMValue none none
  | .dispComplete _ _ => .getMValue none none
  | c => c

def lastOf (cache : Cache) (cs : List Screen) : Option Screen :=
  (cs.filter fun c => c.key.cache = cache).getLast?

/-- The call repeats the key its module stored last: same screen and extra number, and two
arguments equal to the first 47 bytes of the earlier ones. -/
def RepeatsKey (pre : List Screen) (c : Screen) : Prop :=
  ∃ p, lastOf c.key.cache pre = some p ∧ c.key.Hits p.key.stored

/-- The panel was last used for the same picture. -/
def PanelHas (pre : List Screen) (c : Screen) : Prop :=
  ∃ q, pre.getLast? = some q ∧ face q = face c

theorem sinceClear_split (before : List HalOp) {after : List HalOp} (h : clearOp ∉ after) :
    sinceClear (before ++ clearOp :: after) = after := by
  induction after using List.reverseRecOn with
  | nil => exact List.rtakeWhile_concat_neg _ before clearOp (by simp)
  | append_singleton after op ih =>
    simp only [List.mem_append, List.mem_singleton, not_or] at h
    have hop : op ≠ clearOp := fun heq => h.2 heq.symm
    have hassoc : before ++ clearOp :: (after ++ [op]) = before ++ clearOp :: after ++ [op] := by
      simp
    rw [hassoc, sinceClear, List.rtakeWhile_concat_pos _ _ _ (by simpa using hop)]
    rw [← sinceClear, ih h.1]

theorem shows_drawn (issued : List HalOp) (c : Screen) : Shows (issued ++ c.drawn) c := by
  obtain ⟨body, hclear, hdrawn⟩ := c.drawn_eq
  have hafter : clearOp ∉ [.delayUs 1600, .writeInstr displayOn, .delayUs 72] ++ body := by
    rw [List.mem_append, not_or]
    exact ⟨by decide, hclear⟩
  have hbegin : begin ++ body = [.writeInstr basicFunc, .delayUs 72] ++ clearOp ::
      ([.delayUs 1600, .writeInstr displayOn, .delayUs 72] ++ body) := rfl
  rw [Shows, hdrawn, hbegin, sinceClear_split _ hafter, ← List.append_assoc,
    sinceClear_split _ hafter]

def readFace (picture : List HalOp) : Screen :=
  match picture.drop 3 with
  | [] => .getMValue none none
  | [start, _, _] => if start = .moveDdram 0 then .authWaiting 1 else .plugInWaiting 1
  | [_, label, _, .writeLetters m, _, _, _, .writeLetters s] =>
    if label = letters "MCU Ver:" then .info1 m s
    else if label = letters "SN:" then .info2 m s
    else if label = letters "Meter Ver:" then .info3 m s
    else .info4 m s
  | _ :: .writeGraphic _ :: rest =>
    if rest[5]? = some (.writeGraphic 0xA8) then .authWaiting 0 else .plugInWaiting 0
  | _ :: label :: rest =>
    if label = letters " Charger Initialization" then .initial
    else if label = letters "System Loading..." then .systemLoading
    else if label = letters " Charger Standby" then .standby (if rest.length > 19 then 1 else 0)
    else if label = letters "Charger Preparing" then .preparing
    else if label = letters "Connecting to the Server" then .serverConn
    else if label = letters "Connection Failed" then .serverConnFailed
    else .serverConnLost
  | [_] => .initial

theorem drawn_face (c : Screen) : (face c).drawn = c.drawn := by
  cases c with
  | standby d =>
    by_cases hd : d > 0
    · simp [face, hd, Screen.drawn, Screen.call, onUi, eviCaptionStandby, captionScreen, need,
        Statics.powerOn, Ui.initial]
    · simp [face, hd, Screen.drawn, Screen.call, onUi, eviCaptionStandby, captionScreen, need,
        Statics.powerOn, Ui.initial]
  | authWaiting s =>
    by_cases hs : s.tmod 2 = 0
    · simp [face, hs, Screen.drawn, Screen.call, onU2, ChargeRouter.eviCaptionAuthWaiting]
    · simp [face, hs, Screen.drawn, Screen.call, onU2, ChargeRouter.eviCaptionAuthWaiting]
  | plugInWaiting s =>
    by_cases hs : s.tmod 2 = 0
    · simp [face, hs, Screen.drawn, Screen.call, onU2, ChargeRouter.eviCaptionPlugInWaiting]
    · simp [face, hs, Screen.drawn, Screen.call, onU2, ChargeRouter.eviCaptionPlugInWaiting]
  | _ => rfl

theorem readFace_drawn (c : Screen) : readFace (sinceClear c.drawn) = face c := by
  rw [← drawn_face]
  cases c with
  | standby d =>
    by_cases hd : d > 0
    · simp only [face, if_pos hd]
      rfl
    · simp only [face, if_neg hd]
      rfl
  | authWaiting s =>
    by_cases hs : s.tmod 2 = 0
    · simp only [face, if_pos hs]
      rfl
    · simp only [face, if_neg hs]
      rfl
  | plugInWaiting s =>
    by_cases hs : s.tmod 2 = 0
    · simp only [face, if_pos hs]
      rfl
    · simp only [face, if_neg hs]
      rfl
  | _ => rfl

/-- Two screens give the same picture exactly when they have the same face. -/
theorem sinceClear_drawn_eq_iff (q c : Screen) :
    sinceClear q.drawn = sinceClear c.drawn ↔ face q = face c := by
  constructor
  · intro h
    rw [← readFace_drawn, h, readFace_drawn]
  · intro h
    rw [← drawn_face, h, drawn_face]

theorem lastOf_snoc (cache : Cache) (cs : List Screen) (c : Screen) :
    lastOf cache (cs ++ [c]) = if cache = c.key.cache then some c else lastOf cache cs := by
  by_cases h : cache = c.key.cache
  · simp [lastOf, h]
  · have hne : c.key.cache ≠ cache := fun heq => h heq.symm
    simp [lastOf, h, hne]

theorem entry_runScreens (cs : List Screen) (cache : Cache) :
    (runScreens cs).statics.entry cache = (lastOf cache cs).map fun c => c.key.stored := by
  induction cs using List.reverseRecOn with
  | nil => cases cache <;> rfl
  | append_singleton cs c ih =>
    have hentry := c.entry_call (runScreens cs).statics cache
    rw [runScreens_snoc, lastOf_snoc]
    apply hentry.trans
    split_ifs with h
    · rfl
    · exact ih

/-- A call is skipped exactly when it repeats the key its module stored last. -/
theorem holds_iff_repeatsKey (pre : List Screen) (c : Screen) :
    (runScreens pre).statics.Holds c.key ↔ RepeatsKey pre c := by
  simp only [Statics.Holds, RepeatsKey, entry_runScreens, Option.map_eq_some_iff]
  constructor
  · rintro ⟨e, ⟨p, hp, rfl⟩, hhits⟩
    exact ⟨p, hp, hhits⟩
  · rintro ⟨p, hp, hhits⟩
    exact ⟨_, ⟨p, hp, rfl⟩, hhits⟩

theorem issued_of_repeatsKey {pre : List Screen} {c : Screen} (h : RepeatsKey pre c) :
    (runScreens (pre ++ [c])).issued = (runScreens pre).issued := by
  have hholds := (holds_iff_repeatsKey pre c).mpr h
  rw [runScreens_snoc, Run.screen, c.call_of_holds hholds, List.append_nil]

theorem issued_of_not_repeatsKey {pre : List Screen} {c : Screen} (h : ¬ RepeatsKey pre c) :
    (runScreens (pre ++ [c])).issued = (runScreens pre).issued ++ c.drawn := by
  have hholds := mt (holds_iff_repeatsKey pre c).mp h
  rw [runScreens_snoc, Run.screen, c.call_of_not_holds hholds]

theorem not_repeatsKey_nil (c : Screen) : ¬ RepeatsKey [] c := by
  rintro ⟨p, hp, -⟩
  cases hp

/-- The last call before a skipped one decides what is seen, so the panel always shows the screen
of the latest call exactly when every skipped call has the picture of the call right before it. -/
theorem alwaysShows_iff (cs : List Screen) :
    AlwaysShows cs ↔ ∀ pre c, pre ++ [c] <+: cs → RepeatsKey pre c → PanelHas pre c := by
  constructor
  · intro shows pre c hpre hrepeats
    have hnow := shows pre c hpre
    rw [issued_of_repeatsKey hrepeats] at hnow
    induction pre using List.reverseRecOn with
    | nil => exact absurd hrepeats (not_repeatsKey_nil c)
    | append_singleton before q _ =>
      have hbefore := shows before q ((List.prefix_append _ _).trans hpre)
      have hsame : sinceClear q.drawn = sinceClear c.drawn := hbefore.symm.trans hnow
      exact ⟨q, by simp, (sinceClear_drawn_eq_iff q c).mp hsame⟩
  · intro cond pre c hpre
    induction pre using List.reverseRecOn generalizing c with
    | nil =>
      rw [issued_of_not_repeatsKey (not_repeatsKey_nil c)]
      exact shows_drawn _ c
    | append_singleton before q ih =>
      by_cases hrepeats : RepeatsKey (before ++ [q]) c
      · -- Skipped: the picture is the one of the call before.
        obtain ⟨q', hq', hface⟩ := cond _ c hpre hrepeats
        obtain rfl : q = q' := by simpa using hq'
        have hshown := ih q ((List.prefix_append _ _).trans hpre)
        rw [issued_of_repeatsKey hrepeats, Shows, ← (sinceClear_drawn_eq_iff q c).mpr hface]
        exact hshown
      · rw [issued_of_not_repeatsKey hrepeats]
        exact shows_drawn _ c

def interleavedRun : List Screen :=
  [.info1 (some (literal "1.0")) (some (literal "2.0")), .preparing,
    .info1 (some (literal "1.0")) (some (literal "2.0"))]

/-- The second information call is skipped: the panel keeps the charging screen. -/
theorem interleavedRun_not_alwaysShows : ¬ AlwaysShows interleavedRun := by
  intro h
  have hlast := h [.info1 (some (literal "1.0")) (some (literal "2.0")), .preparing]
    (.info1 (some (literal "1.0")) (some (literal "2.0"))) (List.prefix_refl _)
  revert hlast
  decide +kernel

end Evi7688.Libevi.PanelContents
