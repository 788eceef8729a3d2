/- Evi7688/Python/Backends
   digest: Which sequences of shim calls put the same bytes on the panel with and without the evi module. -/

import Evi7688.Python.DisplayCaptionFunc

set_option autoImplicit false
set_option relaxedAutoImplicit false

namespace Evi7688.Python.Backends

open Evi7688.Library.CharacterPanel (Pulse)
open Evi7688.Library.Pieces (fill delivers_fill length_le_of_mem_fillLoop)
open Evi7688.Library.PyText
open Evi7688.Lcdsvc.LcdHw (SysfsEnv openEnv openHost)
open Evi7688.Lcdsvc.Service (Session)
open Evi7688.Libevi
open Hal (HalOp ensureOps)
open Screens (Statics)
open Evi7688.Library.Bytes (ascii)
open DisplayCaptionFunc

def utf8 (wordStr : Letters) : Option (List UInt8) := wordStr.text >>= encode

theorem utf8_bytes (b : List UInt8) : utf8 (.bytes b) = some (encodeIgnore (decodeIgnore b)) :=
  encode_decodeIgnore b

def AllReturnZero (results : List Result) : Prop := ∀ r ∈ results, r.rc = some 0

instance (results : List Result) : Decidable (AllReturnZero results) :=
  inferInstanceAs (Decidable (∀ _ ∈ _, _))

/-- Every `write_letters` contributes exactly the UTF-8 bytes of its text, as data. -/
def LettersExact (results : List Result) : Prop :=
  ∀ r ∈ results, ∀ wordStr bytes, r.call = .writeLetters wordStr → utf8 wordStr = some bytes →
    r.sent = bytes.map (⟨true, ·⟩)

section

variable (env : SysfsEnv) (daemon : Session) (steps : List Step)

def throughLibrary : List Result := run env (some eviPy) (.fresh daemon) steps

def throughSocket : List Result := run env none (.fresh daemon) steps

structure Agree : Prop where
  same : (throughLibrary env daemon steps).flatMap Result.sent =
    (throughSocket env daemon steps).flatMap Result.sent
  library : LettersExact (throughLibrary env daemon steps)
  socket : LettersExact (throughSocket env daemon steps)

def Encodable (call : ShimCall) : Prop := ∃ wordStr, call = .writeLetters wordStr ∧ utf8 wordStr ≠ none

variable {env daemon steps}

theorem call_eq (t : Transport) {call : ShimCall} (h : ¬ Encodable call) :
    call.run env t (some eviPy) = call.run env t none := by
  funext w
  cases call with
  | writeInstructions val => rfl
  | lcdClr => rfl
  | setDdram addr => rfl
  | writeLetters wordStr =>
    have hnone : utf8 wordStr = none := by
      by_contra hsome
      exact h ⟨wordStr, rfl, hsome⟩
    have hinit : ensureInit (some eviPy) w = ensureInit none w := rfl
    cases htext : wordStr.text with
    | none => simp only [ShimCall.run, writeLetters, htext, hinit]
    | some s =>
      have hraises : encode s = none := by
        simpa [utf8, htext] using hnone
      simp only [ShimCall.run, writeLetters, htext, hinit]
      have hfirst := delegate_raised (w := ensureInit none w)
        (dispComplete_raised hraises (ofAscii (ascii "text")) _)
        (send env t (ofAscii (ascii "PUT ") ++ s))
      exact congrArg (fun r => (some r.1, r.2)) hfirst

def firstScreen : List Pulse :=
  (ensureOps ++ ChargeRouter.begin.flatMap HalOp.busOps).flatMap busSent

theorem firstScreen_ne_nil : firstScreen ≠ [] := by decide

theorem firstScreen_instructions : ∀ p ∈ firstScreen, p.rs = false := by decide

def drawnLib (bytes : List UInt8) : Lib where
  statics := { Statics.powerOn with
    u2 := ChargeRouter.keep2 .done (some (cCharP (ascii "text"))) (some (cCharP bytes)) }
  hal := ⟨true, ensureOps ++ ChargeRouter.begin.flatMap HalOp.busOps⟩

theorem drawn_of_loaded {s : PyStr} {bytes : List UInt8} (h : encode s = some bytes) :
    dispComplete (ofAscii (ascii "text")) s .loaded = (.returnedNone, drawnLib bytes) := by
  have hitem : encode (ofAscii (ascii "text")) = some (ascii "text") := by decide
  simp only [dispComplete, hitem, h]
  rfl

theorem sent_of_encodable (env : SysfsEnv) (t : Transport) {call : ShimCall} (h : Encodable call)
    {w : World} (hlib : w.lib = .loaded) :
    sentBetween w (call.run env t (some eviPy) w).2 = firstScreen := by
  obtain ⟨wordStr, rfl, hsome⟩ := h
  obtain ⟨bytes, hbytes⟩ := Option.ne_none_iff_exists'.mp hsome
  obtain ⟨s, htext, hencode⟩ := Option.bind_eq_some_iff.mp hbytes
  have hinit : (ensureInit (some eviPy) w).lib = .loaded := by
    unfold ensureInit
    split_ifs <;> exact hlib
  have hdraws := drawn_of_loaded hencode
  rw [← hinit] at hdraws
  have hcall := delegate_returnedNone hdraws (send env t (ofAscii (ascii "PUT ") ++ s))
  have hafter : (ShimCall.run env t (some eviPy) (.writeLetters wordStr) w).2 =
      { ensureInit (some eviPy) w with lib := drawnLib bytes } := by
    simp only [ShimCall.run, writeLetters, htext]
    exact congrArg Prod.snd hcall
  have hdaemon : (ensureInit (some eviPy) w).daemon = w.daemon := by
    unfold ensureInit
    split_ifs <;> rfl
  rw [hafter, sentBetween, hlib, hdaemon, List.drop_length, List.append_nil]
  rfl

theorem firstScreen_ne_data (bytes : List UInt8) : firstScreen ≠ bytes.map (⟨true, ·⟩) := by
  intro heq
  obtain ⟨p, hp⟩ := List.exists_mem_of_ne_nil _ firstScreen_ne_nil
  have hrs := firstScreen_instructions p hp
  rw [heq, List.mem_map] at hp
  obtain ⟨b, -, rfl⟩ := hp
  cases hrs

theorem not_lettersExact {w : World} (hlib : w.lib = .loaded)
    (h : ∃ step ∈ steps, Encodable step.call) :
    ¬ LettersExact (run env (some eviPy) w steps) := by
  intro exact
  induction steps generalizing w with
  | nil =>
    obtain ⟨step, hmem, -⟩ := h
    cases hmem
  | cons step steps ih =>
    rw [run] at exact
    by_cases hcall : Encodable step.call
    · have hsent := sent_of_encodable env step.transport hcall hlib
      obtain ⟨wordStr, hletters, hsome⟩ := hcall
      obtain ⟨bytes, hbytes⟩ := Option.ne_none_iff_exists'.mp hsome
      have hdata := exact _ List.mem_cons_self wordStr bytes hletters hbytes
      exact firstScreen_ne_data bytes (hsent.symm.trans hdata)
    · have hrest : ∃ step ∈ steps, Encodable step.call := by
        obtain ⟨other, hmem, hother⟩ := h
        rcases List.mem_cons.mp hmem with rfl | hmem
        · exact absurd hother hcall
        · exact ⟨other, hmem, hother⟩
      rw [call_eq step.transport hcall] at exact
      have hnext := (socket_step env step.transport step.call w).1.trans hlib
      apply ih hnext hrest
      intro r hr
      exact exact r (List.mem_cons_of_mem _ hr)

theorem run_eq (h : ∀ step ∈ steps, ¬ Encodable step.call) (w : World) :
    run env (some eviPy) w steps = run env none w steps := by
  induction steps generalizing w with
  | nil => rfl
  | cons step steps ih =>
    rw [run, run, call_eq step.transport (h step List.mem_cons_self)]
    rw [ih fun other hmem => h other (List.mem_cons_of_mem _ hmem)]

theorem call_of_mem_run {evi : Option Evi} {w : World} {r : Result}
    (h : r ∈ run env evi w steps) : ∃ step ∈ steps, step.call = r.call := by
  induction steps generalizing w with
  | nil => cases h
  | cons step steps ih =>
    rw [run] at h
    rcases List.mem_cons.mp h with rfl | h
    · exact ⟨step, List.mem_cons_self, rfl⟩
    · obtain ⟨other, hmem, hcall⟩ := ih h
      exact ⟨other, List.mem_cons_of_mem _ hmem, hcall⟩

theorem lettersExact_of_no_text (h : ∀ step ∈ steps, ¬ Encodable step.call) (evi : Option Evi)
    (w : World) : LettersExact (run env evi w steps) := by
  intro r hr wordStr bytes hletters hbytes
  obtain ⟨step, hmem, hcall⟩ := call_of_mem_run hr
  exact absurd ⟨wordStr, hcall.trans hletters, by simp [hbytes]⟩ (h step hmem)

/-- The two backends agree exactly on the sequences in which no text with a UTF-8 encoding is
written, whatever the calls return. -/
theorem agree_iff (env : SysfsEnv) (daemon : Session) (steps : List Step) :
    Agree env daemon steps ↔
      ∀ step ∈ steps, ∀ wordStr, step.call = .writeLetters wordStr → utf8 wordStr = none := by
  have hcondition : (∀ step ∈ steps, ∀ wordStr, step.call = .writeLetters wordStr →
      utf8 wordStr = none) ↔ ∀ step ∈ steps, ¬ Encodable step.call := by
    constructor
    · rintro h step hmem ⟨wordStr, hcall, hsome⟩
      exact hsome (h step hmem wordStr hcall)
    · intro h step hmem wordStr hcall
      by_contra hsome
      exact h step hmem ⟨wordStr, hcall, hsome⟩
  rw [hcondition]
  constructor
  · intro agree step hmem hcall
    exact not_lettersExact rfl ⟨step, hmem, hcall⟩ agree.library
  · intro h
    constructor
    · rw [throughLibrary, throughSocket, run_eq h]
    · exact lettersExact_of_no_text h _ _
    · exact lettersExact_of_no_text h _ _

end

def fullBuffers : Transport where
  up := true
  cut := fill 511
  reads stream := ⟨delivers_fill (by decide) stream, length_le_of_mem_fillLoop⟩
  moreReplies := 0

/-- One letter is a screen of the library and a data byte of the daemon. -/
theorem one_letter_disagrees :
    ¬ ∀ steps, AllReturnZero (throughLibrary openEnv ⟨openHost, [], []⟩ steps) →
      AllReturnZero (throughSocket openEnv ⟨openHost, [], []⟩ steps) →
      Agree openEnv ⟨openHost, [], []⟩ steps := by
  intro h
  have agree := h [⟨.writeLetters (.str (ofAscii (ascii "A"))), fullBuffers⟩]
    (by decide +kernel) (by decide +kernel)
  have hletter : Encodable (.writeLetters (.str (ofAscii (ascii "A")))) := ⟨_, rfl, by decide⟩
  exact not_lettersExact rfl ⟨_, List.mem_cons_self, hletter⟩ agree.library

end Evi7688.Python.Backends
