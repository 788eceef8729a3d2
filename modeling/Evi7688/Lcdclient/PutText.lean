/- Evi7688/Lcdclient/PutText
   digest: Which strings evi_lcd_put writes to the panel, from the client's buffer to the panel's bus. -/

import Evi7688.Lcdclient.EviLcd

set_option autoImplicit false
set_option relaxedAutoImplicit false

namespace Evi7688.Lcdclient.PutText

open Evi7688.Library.Bytes (ascii newline snprintf CString literal)
open Evi7688.Library.CharacterPanel (Pulse)
open Evi7688.Library.Delimited
open Evi7688.Library.Pieces (fill fill_of_length_le fill_two)
open Evi7688.Lcdsvc.LcdHw
open Evi7688.Lcdsvc.Service
open EviLcd

/-- If the call reports success, the daemon executed the one PUT of the string and the panel
latched its bytes as data, in order, and nothing else. -/
def PutFaithful (ch : Channel) (env : SysfsEnv) (d : Session) (s : CString) : Prop :=
  let r := eviLcdPut ch env (some s) d
  r.1 = 0 →
    r.2.executed = d.executed ++ [.put s.bytes] ∧
      r.2.host.received = d.host.received ++ s.bytes.map (⟨true, ·⟩)

/-- The second read of a request that does not fit one buffer. -/
def overflow (s : CString) : List UInt8 := (s.bytes.take 595).drop 507

/-- The string fits one read and has no newline, or it is longer, has no newline in the first read,
and the first line of the second read names no command, so that the call fails. -/
def PutFits (s : CString) : Prop :=
  (s.bytes.length ≤ 506 ∧ newline ∉ s.bytes) ∨
    (507 ≤ s.bytes.length ∧ newline ∉ s.bytes.take 507 ∧
      named ((overflow s).takeWhile (· ≠ newline)) = none)

instance (s : CString) : Decidable (PutFits s) := inferInstanceAs (Decidable (_ ∨ _))

theorem named_put (text : List UInt8) : named (ascii "PUT " ++ text) = some (.put text) :=
  named_of_ok (dispatch_put text)

theorem newline_notMem_put {text : List UInt8} (h : newline ∉ text) :
    newline ∉ ascii "PUT " ++ text := by
  rw [List.mem_append, not_or]
  exact ⟨by decide, h⟩

theorem text_of_named_put {line text : List UInt8} (h : named line = some (.put text)) :
    text = line.drop 4 := by
  have hok : dispatch line = .ok (.put text) := named_eq_some_iff.mp h
  unfold dispatch at hok
  split_ifs at hok
  · cases hok
  · cases hok
  · cases hok
  · split at hok <;> cases hok
  · cases hok
    rfl
  · split at hok <;> cases hok

private theorem nulFree_take {p xs : List UInt8} (h : (0 : UInt8) ∉ p) (hxs : xs <+: p) :
    xs.takeWhile (· != 0) = xs := by
  rw [List.takeWhile_eq_self_iff]
  intro b hb
  simpa using fun h0 : b = 0 => h (h0 ▸ hxs.subset hb)

theorem requestLines_short {s : CString} (h : s.bytes.length ≤ 506) :
    requestLines (snprintf 600 (ascii "PUT " ++ s.bytes)) =
      records newline (ascii "PUT " ++ s.bytes ++ [newline]) := by
  have hnul : (0 : UInt8) ∉ ascii "PUT " ++ s.bytes ++ [newline] := by
    simp only [List.mem_append, not_or]
    exact ⟨⟨by decide, s.nulFree⟩, by decide⟩
  have hlen : (ascii "PUT " ++ s.bytes).length = s.bytes.length + 4 := by
    rw [List.length_append, Nat.add_comm]
    rfl
  have hformat : snprintf 600 (ascii "PUT " ++ s.bytes) = ascii "PUT " ++ s.bytes :=
    List.take_of_length_le (by omega)
  have hfill : fill 511 (ascii "PUT " ++ s.bytes ++ [newline]) =
      [ascii "PUT " ++ s.bytes ++ [newline]] := by
    apply fill_of_length_le (by simp)
    rw [List.length_append, hlen, List.length_singleton]
    omega
  rw [requestLines, hformat, hfill]
  simp only [dispatched, List.flatMap_cons, List.flatMap_nil, List.append_nil, bufferLines,
    nulFree_take hnul List.prefix_rfl]

/-- A request that needs two reads: the first ends after 507 bytes of the string. -/
theorem requestLines_long {s : CString} (h : 507 ≤ s.bytes.length) :
    requestLines (snprintf 600 (ascii "PUT " ++ s.bytes)) =
      records newline (ascii "PUT " ++ s.bytes.take 507) ++
        records newline (overflow s ++ [newline]) := by
  have hkept : 507 ≤ (s.bytes.take 595).length := by
    rw [List.length_take]
    omega
  have hformat : snprintf 600 (ascii "PUT " ++ s.bytes) = ascii "PUT " ++ s.bytes.take 595 := rfl
  have hfirst : (ascii "PUT " ++ s.bytes.take 595 ++ [newline]).take 511 =
      ascii "PUT " ++ s.bytes.take 507 := by
    have htake : (s.bytes.take 595 ++ [newline]).take 507 = s.bytes.take 507 := by
      rw [List.take_append_of_le_length hkept, List.take_take]
      rfl
    rw [← htake]
    rfl
  have hsecond : (ascii "PUT " ++ s.bytes.take 595 ++ [newline]).drop 511 =
      overflow s ++ [newline] := by
    have hdrop : (s.bytes.take 595 ++ [newline]).drop 507 = overflow s ++ [newline] :=
      List.drop_append_of_le_length hkept
    rw [← hdrop]
    rfl
  have hlen : (ascii "PUT " ++ s.bytes.take 595 ++ [newline]).length =
      (s.bytes.take 595).length + 5 := by
    rw [List.length_append, List.length_append, show (ascii "PUT ").length = 4 from rfl,
      List.length_singleton]
    omega
  have hshort := List.length_take_le 595 s.bytes
  have hfill : fill 511 (ascii "PUT " ++ s.bytes.take 595 ++ [newline]) =
      [ascii "PUT " ++ s.bytes.take 507, overflow s ++ [newline]] := by
    rw [fill_two (by omega) (by omega), hfirst, hsecond]
  have hnulFirst : (0 : UInt8) ∉ ascii "PUT " ++ s.bytes.take 507 := by
    rw [List.mem_append, not_or]
    exact ⟨by decide, fun hm => s.nulFree (List.mem_of_mem_take hm)⟩
  have hnulSecond : (0 : UInt8) ∉ overflow s ++ [newline] := by
    rw [List.mem_append, not_or]
    exact ⟨fun hm => s.nulFree (List.mem_of_mem_take (List.mem_of_mem_drop hm)), by decide⟩
  rw [requestLines, hformat, hfill]
  simp only [dispatched, List.flatMap_cons, List.flatMap_nil, List.append_nil, bufferLines,
    nulFree_take hnulFirst List.prefix_rfl, nulFree_take hnulSecond List.prefix_rfl]

section Outcomes

variable {ch : Channel} (env : SysfsEnv) {s : CString} {line : List UInt8}
  {rest : List (List UInt8)} (d : Session)

theorem not_faithful_of_other {c : Command} (hup : ch.up = true)
    (hlines : requestLines (snprintf 600 (ascii "PUT " ++ s.bytes)) = line :: rest)
    (hc : named line = some c) (hother : c ≠ .put s.bytes) : ¬ PutFaithful ch env d s := by
  intro h
  have hrun : eviLcdPut ch env (some s) d =
      (if named line ≠ none then 0 else -5,
        (line :: rest).foldl (handleLine env) { d with replies := [] }) :=
    sendCmd_up env hup hlines d
  have hexecuted := executed_foldl env (line :: rest) { d with replies := [] }
  have hboth := h (by rw [hrun]; simp [hc])
  rw [hrun] at hboth
  simp only [hexecuted, List.filterMap_cons, hc, List.append_right_inj, List.cons.injEq] at hboth
  exact hother hboth.1.1

theorem faithful_of_error (hup : ch.up = true)
    (hlines : requestLines (snprintf 600 (ascii "PUT " ++ s.bytes)) = line :: rest)
    (hnone : named line = none) : PutFaithful ch env d s := by
  intro hrc
  have hrun : eviLcdPut ch env (some s) d = (if named line ≠ none then 0 else -5,
      (line :: rest).foldl (handleLine env) { d with replies := [] }) :=
    sendCmd_up env hup hlines d
  rw [hrun, if_neg (by simp [hnone])] at hrc
  cases hrc

theorem faithful_of_put (hup : ch.up = true) (sound : GpioSound env d.host)
    (hlines : requestLines (snprintf 600 (ascii "PUT " ++ s.bytes)) = [ascii "PUT " ++ s.bytes]) :
    PutFaithful ch env d s := by
  intro _
  have hrun : eviLcdPut ch env (some s) d =
      (if named (ascii "PUT " ++ s.bytes) ≠ none then 0 else -5,
      [ascii "PUT " ++ s.bytes].foldl (handleLine env) { d with replies := [] }) :=
    sendCmd_up env hup hlines d
  have hline : handleLine env { d with replies := [] } (ascii "PUT " ++ s.bytes) =
      ⟨(lcdWriteText env s.bytes d.host).2, [okReply], d.executed ++ [.put s.bytes]⟩ :=
    handleLine_of_ok env _ (dispatch_put s.bytes)
  rw [hrun, List.foldl_cons, List.foldl_nil, hline]
  exact ⟨rfl, (lcdWriteText_sound s.bytes sound).1⟩

end Outcomes

theorem records_snoc (text : List UInt8) :
    ∃ rest, records newline (text ++ [newline]) = text.takeWhile (· ≠ newline) :: rest := by
  by_cases hmem : newline ∈ text
  · obtain ⟨r, ys, hr, rfl⟩ := exists_record_of_mem hmem
    have htake : (r ++ newline :: ys).takeWhile (· ≠ newline) = r := by
      rw [List.takeWhile_append_of_pos]
      · simp
      · intro b hb
        simpa using fun heq : b = newline => hr (heq ▸ hb)
    refine ⟨records newline (ys ++ [newline]), ?_⟩
    rw [htake, List.append_assoc, List.cons_append, records_record _ hr]
  · have htake : text.takeWhile (· ≠ newline) = text := by
      rw [List.takeWhile_eq_self_iff]
      intro b hb
      simpa using fun heq : b = newline => hmem (heq ▸ hb)
    rw [htake]
    exact ⟨_, records_record [] hmem⟩

theorem records_put {text : List UInt8} (h : newline ∈ text) (more : List UInt8) :
    ∃ a rest, records newline (ascii "PUT " ++ text ++ more) = (ascii "PUT " ++ a) :: rest ∧
      newline ∉ a := by
  obtain ⟨a, b, ha, rfl⟩ := exists_record_of_mem h
  refine ⟨a, records newline (b ++ more), ?_, ha⟩
  rw [← records_record (b ++ more) (newline_notMem_put ha)]
  simp

section Strings

variable {s : CString}

theorem requestLines_overflow (hlong : 507 ≤ s.bytes.length)
    (hclean : newline ∉ s.bytes.take 507) :
    ∃ rest, requestLines (snprintf 600 (ascii "PUT " ++ s.bytes)) =
      (overflow s).takeWhile (· ≠ newline) :: rest := by
  obtain ⟨rest, hrest⟩ := records_snoc (overflow s)
  refine ⟨rest, ?_⟩
  rw [requestLines_long hlong, hrest, records,
    recordsFrom_of_notMem [] (newline_notMem_put hclean), List.nil_append]

theorem ne_put_of_named_overflow {c : Command} (hlong : 507 ≤ s.bytes.length)
    (hc : named ((overflow s).takeWhile (· ≠ newline)) = some c) : c ≠ .put s.bytes := by
  rintro rfl
  have hle : s.bytes.length ≤ ((overflow s).takeWhile (· ≠ newline)).length := by
    rw [text_of_named_put hc]
    exact (List.drop_sublist 4 _).length_le
  have hline := (List.takeWhile_prefix (l := overflow s) (· ≠ newline)).length_le
  have hoverflow : (overflow s).length ≤ 88 := by
    rw [overflow, List.length_drop, List.length_take]
    omega
  omega

variable {ch : Channel} (env : SysfsEnv) (d : Session)

theorem putFits_of_faithful (hup : ch.up = true) (h : PutFaithful ch env d s) : PutFits s := by
  by_cases hshort : s.bytes.length ≤ 506
  · refine Or.inl ⟨hshort, fun hmem => ?_⟩
    obtain ⟨a, rest, hlines, ha⟩ := records_put hmem [newline]
    have hother : Command.put a ≠ .put s.bytes := by
      intro heq
      exact ha (Command.put.inj heq ▸ hmem)
    exact not_faithful_of_other env d hup ((requestLines_short hshort).trans hlines)
      (named_put a) hother h
  · have hlong : 507 ≤ s.bytes.length := by omega
    have hclean : newline ∉ s.bytes.take 507 := by
      intro hmem
      obtain ⟨a, rest, hfirst, ha⟩ := records_put hmem []
      have hother : Command.put a ≠ .put s.bytes := by
        intro heq
        exact ha (Command.put.inj heq ▸ List.mem_of_mem_take hmem)
      have hlines := requestLines_long hlong
      rw [List.append_nil] at hfirst
      rw [hfirst, List.cons_append] at hlines
      exact not_faithful_of_other env d hup hlines (named_put a) hother h
    refine Or.inr ⟨hlong, hclean, ?_⟩
    by_contra hnamed
    obtain ⟨c, hc⟩ := Option.ne_none_iff_exists'.mp hnamed
    obtain ⟨rest, hlines⟩ := requestLines_overflow hlong hclean
    exact not_faithful_of_other env d hup hlines hc (ne_put_of_named_overflow hlong hc) h

theorem faithful_of_putFits (hup : ch.up = true) (sound : GpioSound env d.host) (h : PutFits s) :
    PutFaithful ch env d s := by
  rcases h with ⟨hshort, hclean⟩ | ⟨hlong, hclean, hnone⟩
  · apply faithful_of_put env d hup sound
    rw [requestLines_short hshort, records_record _ (newline_notMem_put hclean)]
    rfl
  · obtain ⟨rest, hlines⟩ := requestLines_overflow hlong hclean
    exact faithful_of_error env d hup hlines hnone

end Strings

/-- Exactly the strings that fit one read of the daemon and have no newline are written as they
are; of the others, the call fails only on those whose second read begins with a line that names
no command. -/
theorem putFaithful_iff (ch : Channel) (env : SysfsEnv) (d : Session)
    (sound : GpioSound env d.host) (s : CString) :
    PutFaithful ch env d s ↔ ch.up = false ∨ PutFits s := by
  cases hup : ch.up with
  | false => exact iff_of_true (fun hrc => absurd hrc (sendCmd_down env hup _ d)) (Or.inl rfl)
  | true =>
    constructor
    · exact fun h => Or.inr (putFits_of_faithful env d hup h)
    · exact fun h => faithful_of_putFits env d hup sound (h.resolve_left nofun)

theorem putFaithful_hello :
    PutFaithful ⟨true, true, 0⟩ openEnv ⟨openHost, [], []⟩ (literal "HELLO EVSE") :=
  (putFaithful_iff _ _ _ openHost_sound _).mpr (Or.inr (by decide))

/-- A newline in the string smuggles in a command, and the call reports success. -/
theorem embedded_clear_not_faithful :
    ¬ ∀ s, PutFaithful ⟨true, true, 0⟩ openEnv ⟨openHost, [], []⟩ s := by
  intro h
  have hlines : requestLines (snprintf 600 (ascii "PUT " ++ (literal "A\nCLEAR").bytes)) =
      [ascii "PUT " ++ ascii "A", ascii "CLEAR"] := by
    decide +kernel
  have hother : Command.put (ascii "A") ≠ .put (literal "A\nCLEAR").bytes := by
    decide
  exact not_faithful_of_other openEnv _ rfl hlines (named_put _) hother (h _)

end Evi7688.Lcdclient.PutText
