/- Evi7688/Lcdsvc/LcdHw
   digest: The sysfs GPIO handles of the daemon and the LCD operations built on them. -/

import Evi7688.Library.CharacterPanel
import Evi7688.Library.Numerals

set_option autoImplicit false
set_option relaxedAutoImplicit false

namespace Evi7688.Lcdsvc.LcdHw

open Evi7688.Library.Bytes (ascii fgets)
open Evi7688.Library.Numerals (decimalNat scanInt)
open Evi7688.Library.CharacterPanel

/-- The eleven lines between the board and the panel. -/
inductive Line
  | rs | rw | en
  | d (i : Fin 8)
  deriving DecidableEq

/-- `struct lcd_pins`, its pin members indexed by line. -/
structure LcdPins where
  pin : Line → Int
  bits : Int

structure LcdCtx where
  pins : LcdPins
  fd : Line → Int

inductive GpioEvent
  | export (pin : Int)
  | direction (pin : Int) (isOutput : Bool)
  | openHandle (pin fd : Int)
  | write (line : Line) (val ok : Bool)
  deriving DecidableEq

/-- The outside of the daemon, asked at the number of events so far: the descriptor an `open`
returns, whether a write through an open handle succeeds, and what `uci -q get` prints. -/
structure SysfsEnv where
  openResult : Nat → Int
  writeOk : Nat → Bool
  uci : Nat → List UInt8 → Option (List UInt8)

/-- The globals `g` and `pins` of the daemon and every GPIO operation it issued. -/
structure Host where
  g : LcdCtx
  pins : LcdPins
  events : List GpioEvent

def Host.emit (h : Host) (e : GpioEvent) : Host := { h with events := h.events ++ [e] }

def dataLines : List (Fin 8) := List.finRange 8

def allLines : List Line := [.rs, .rw, .en] ++ dataLines.map .d

/-- `gpio_write_fd` on the handle of a line. Without a handle, `lseek` fails. -/
def gpioWriteFd (env : SysfsEnv) (l : Line) (val : Bool) (h : Host) : Int × Host :=
  let ok := decide (0 ≤ h.g.fd l) && env.writeOk h.events.length
  (if ok then 0 else -1, h.emit (.write l val ok))

/-- The loop of `set_data_bus`: lines without a handle are skipped, a failing write ends it. -/
def setDataBusFrom (env : SysfsEnv) (val : UInt8) : List (Fin 8) → Host → Int × Host
  | [], h => (0, h)
  | i :: is, h =>
    if 0 ≤ h.g.fd (.d i) then
      let w := gpioWriteFd env (.d i) (val.toNat.testBit i) h
      if w.1 ≠ 0 then (-1, w.2) else setDataBusFrom env val is w.2
    else setDataBusFrom env val is h

def setDataBus (env : SysfsEnv) (val : UInt8) (h : Host) : Int × Host :=
  setDataBusFrom env val dataLines h

def pulseEn (env : SysfsEnv) (h : Host) : Int × Host :=
  let up := gpioWriteFd env .en true h
  if up.1 ≠ 0 then (-1, up.2)
  else
    let down := gpioWriteFd env .en false up.2
    if down.1 ≠ 0 then (-1, down.2) else (0, down.2)

/-- The common body of `lcd_write_instr` and `lcd_write_data`; only the pulse is checked. -/
def lcdWrite (env : SysfsEnv) (rs : Bool) (v : UInt8) (h : Host) : Int × Host :=
  let h := (gpioWriteFd env .rs rs h).2
  let h := (gpioWriteFd env .rw false h).2
  let h := (setDataBus env v h).2
  pulseEn env h

def lcdWriteInstr (env : SysfsEnv) (v : UInt8) (h : Host) : Int × Host := lcdWrite env false v h

def lcdWriteData (env : SysfsEnv) (v : UInt8) (h : Host) : Int × Host := lcdWrite env true v h

/-- `lcd_write_text` on a string: the results of the writes are dropped. -/
def lcdWriteText (env : SysfsEnv) (s : List UInt8) (h : Host) : Int × Host :=
  (0, s.foldl (fun h u => (lcdWriteData env u h).2) h)

def lcdSetDdram (env : SysfsEnv) (addr : UInt8) (h : Host) : Int × Host :=
  lcdWriteInstr env (0x80 ||| (addr &&& 0x7F)) h

def lcdClear (env : SysfsEnv) (h : Host) : Int × Host := lcdWriteInstr env 0x01 h

def lcdHome (env : SysfsEnv) (h : Host) : Int × Host := lcdWriteInstr env 0x02 h

/-- `gpio_open_handle`, its result stored in the line's member of `g`. -/
def gpioOpenHandle (env : SysfsEnv) (l : Line) (h : Host) : Host :=
  let fd := env.openResult h.events.length
  { h.emit (.openHandle (h.pins.pin l) fd) with
    g := { h.g with fd := Function.update h.g.fd l fd } }

def lcdHwInit (env : SysfsEnv) (h : Host) : Int × Host :=
  let h := { h with g := ⟨h.pins, fun _ => 0⟩ }
  let h := allLines.foldl (fun h l => h.emit (.export (h.pins.pin l))) h
  let h := allLines.foldl (fun h l => h.emit (.direction (h.pins.pin l) true)) h
  let h := allLines.foldl (fun h l => gpioOpenHandle env l h) h
  let h := allLines.foldl (fun h l => (gpioWriteFd env l false h).2) h
  let h := (lcdWriteInstr env 0x30 h).2
  let h := (lcdWriteInstr env 0x30 h).2
  let h := (lcdWriteInstr env 0x08 h).2
  let h := (lcdClear env h).2
  let h := (lcdWriteInstr env 0x06 h).2
  let h := (lcdWriteInstr env 0x0C h).2
  (0, h)

/-- `uci_get_int`: the default stands when nothing is printed or nothing converts. -/
def uciGetInt (env : SysfsEnv) (h : Host) (key : List UInt8) (default : Int) : Int :=
  match env.uci h.events.length key with
  | none => default
  | some text => (scanInt (fgets 64 text)).getD default

def pinKey : Line → List UInt8
  | .rs => ascii "lcd.@lcd[0].rs"
  | .rw => ascii "lcd.@lcd[0].rw"
  | .en => ascii "lcd.@lcd[0].en"
  | .d i => ascii "lcd.@lcd[0].d" ++ decimalNat i

def pinDefault : Line → Int
  | .rs => 0
  | .rw => 1
  | .en => 2
  | .d i => 3 + i

def loadPinsFromUci (env : SysfsEnv) (h : Host) : Host :=
  { h with pins := ⟨fun l => uciGetInt env h (pinKey l) (pinDefault l), 8⟩ }

def lineWrites (events : List GpioEvent) : List (Line × Bool) :=
  events.filterMap fun
    | .write l v true => some (l, v)
    | _ => none

def busByte (level : Line → Bool) : UInt8 :=
  UInt8.ofNat (dataLines.foldl (fun n i => n + (level (.d i)).toNat * 2 ^ i.val) 0)

def panelWiring : Wiring Line := ⟨.rs, .en, busByte⟩

/-- The bytes the panel latched, from the first GPIO operation of the daemon on. -/
def Host.received (h : Host) : List Pulse :=
  sample panelWiring (fun _ => false) (lineWrites h.events)

/-- Every GPIO write succeeds: all handles are open and no write fails. -/
structure GpioSound (env : SysfsEnv) (h : Host) : Prop where
  handles : ∀ l, 0 ≤ h.g.fd l
  writes : ∀ n, env.writeOk n = true

/-- Every `open` brings a handle of its own, and every write succeeds. -/
def openEnv : SysfsEnv := ⟨fun n => 5 + n, fun _ => true, fun _ _ => none⟩

def openHost : Host :=
  ⟨⟨⟨pinDefault, 8⟩, fun l => 5 + pinDefault l⟩, ⟨pinDefault, 8⟩, []⟩

theorem openEnv_opens (n : Nat) : 0 ≤ openEnv.openResult n :=
  Int.add_nonneg (Int.natCast_nonneg 5) (Int.natCast_nonneg n)

theorem openHost_sound : GpioSound openEnv openHost where
  handles l := by
    cases l with
    | d i => exact Int.add_nonneg (Int.natCast_nonneg 5) (Int.natCast_nonneg (3 + i))
    | _ => decide
  writes _ := rfl

theorem lineWrites_append (a b : List GpioEvent) :
    lineWrites (a ++ b) = lineWrites a ++ lineWrites b :=
  List.filterMap_append

theorem Host.received_prefix {h h' : Host} (grows : h.events <+: h'.events) :
    h.received <+: h'.received := by
  obtain ⟨more, hmore⟩ := grows
  rw [received, received, ← hmore, lineWrites_append, sample_append]
  exact List.prefix_append _ _

section Growth

variable (env : SysfsEnv)

theorem emit_grows (h : Host) (e : GpioEvent) : h.events <+: (h.emit e).events :=
  List.prefix_append _ _

theorem gpioWriteFd_grows (l : Line) (val : Bool) (h : Host) :
    h.events <+: (gpioWriteFd env l val h).2.events :=
  emit_grows h _

theorem gpioOpenHandle_grows (l : Line) (h : Host) :
    h.events <+: (gpioOpenHandle env l h).events := by
  simp only [gpioOpenHandle]
  exact emit_grows h _

theorem foldl_grows {β : Type} (f : Host → β → Host) (step : ∀ h b, h.events <+: (f h b).events)
    (bs : List β) (h : Host) : h.events <+: (bs.foldl f h).events := by
  induction bs generalizing h with
  | nil => exact List.prefix_rfl
  | cons b bs ih => exact (step h b).trans (ih (f h b))

theorem setDataBusFrom_grows (val : UInt8) (is : List (Fin 8)) (h : Host) :
    h.events <+: (setDataBusFrom env val is h).2.events := by
  induction is generalizing h with
  | nil => exact List.prefix_rfl
  | cons i is ih =>
    have hwrite := gpioWriteFd_grows env (.d i) (val.toNat.testBit i) h
    simp only [setDataBusFrom]
    split_ifs
    · exact hwrite
    · exact hwrite.trans (ih _)
    · exact ih h

theorem pulseEn_grows (h : Host) : h.events <+: (pulseEn env h).2.events := by
  have hup := gpioWriteFd_grows env .en true h
  have hdown := gpioWriteFd_grows env .en false (gpioWriteFd env .en true h).2
  simp only [pulseEn]
  split_ifs
  · exact hup
  · exact hup.trans hdown
  · exact hup.trans hdown

theorem lcdWrite_grows (rs : Bool) (v : UInt8) (h : Host) :
    h.events <+: (lcdWrite env rs v h).2.events := by
  have hrs := gpioWriteFd_grows env .rs rs h
  have hrw := gpioWriteFd_grows env .rw false (gpioWriteFd env .rs rs h).2
  have hbus := setDataBusFrom_grows env v dataLines
    (gpioWriteFd env .rw false (gpioWriteFd env .rs rs h).2).2
  exact ((hrs.trans hrw).trans hbus).trans (pulseEn_grows env _)

theorem lcdWriteText_grows (s : List UInt8) (h : Host) :
    h.events <+: (lcdWriteText env s h).2.events :=
  foldl_grows _ (fun h u => lcdWrite_grows env true u h) s h

theorem lcdHwInit_grows (h : Host) : h.events <+: (lcdHwInit env h).2.events := by
  simp only [lcdHwInit, lcdClear, lcdWriteInstr]
  generalize hstart : Host.mk _ h.pins h.events = h₀
  have g₀ : h.events <+: h₀.events := by
    subst hstart
    exact List.prefix_rfl
  generalize hexport : allLines.foldl (fun h l => h.emit (.export (h.pins.pin l))) h₀ = h₁
  have g₁ : h.events <+: h₁.events := by
    rw [← hexport]
    exact g₀.trans (foldl_grows _ (fun h l => emit_grows h _) _ _)
  generalize hdirection : allLines.foldl (fun h l => h.emit (.direction (h.pins.pin l) true)) h₁ = h₂
  have g₂ : h.events <+: h₂.events := by
    rw [← hdirection]
    exact g₁.trans (foldl_grows _ (fun h l => emit_grows h _) _ _)
  generalize hopen : allLines.foldl (fun h l => gpioOpenHandle env l h) h₂ = h₃
  have g₃ : h.events <+: h₃.events := by
    rw [← hopen]
    exact g₂.trans (foldl_grows _ (fun h l => gpioOpenHandle_grows env l h) _ _)
  generalize hlow : allLines.foldl (fun h l => (gpioWriteFd env l false h).2) h₃ = h₄
  have g₄ : h.events <+: h₄.events := by
    rw [← hlow]
    exact g₃.trans (foldl_grows _ (fun h l => gpioWriteFd_grows env l false h) _ _)
  exact (((((g₄.trans (lcdWrite_grows env false _ _)).trans (lcdWrite_grows env false _ _)).trans
    (lcdWrite_grows env false _ _)).trans (lcdWrite_grows env false _ _)).trans
    (lcdWrite_grows env false _ _)).trans (lcdWrite_grows env false _ _)

end Growth

section Sound

variable {env : SysfsEnv}

theorem gpioWriteFd_sound {h : Host} (sound : GpioSound env h) (l : Line) (val : Bool) :
    gpioWriteFd env l val h = (0, h.emit (.write l val true)) := by
  simp [gpioWriteFd, sound.handles l, sound.writes]

theorem GpioSound.emit {h : Host} (sound : GpioSound env h) (e : GpioEvent) :
    GpioSound env (h.emit e) :=
  ⟨sound.handles, sound.writes⟩

def busEvents (val : UInt8) (is : List (Fin 8)) : List GpioEvent :=
  is.map fun i => .write (.d i) (val.toNat.testBit i) true

theorem setDataBusFrom_sound (val : UInt8) (is : List (Fin 8)) {h : Host}
    (sound : GpioSound env h) :
    setDataBusFrom env val is h = (0, { h with events := h.events ++ busEvents val is }) := by
  induction is generalizing h with
  | nil => simp [setDataBusFrom, busEvents]
  | cons i is ih =>
    have hstep : setDataBusFrom env val (i :: is) h =
        setDataBusFrom env val is (h.emit (.write (.d i) (val.toNat.testBit i) true)) := by
      simp only [setDataBusFrom, if_pos (sound.handles (.d i)), gpioWriteFd_sound sound]
      simp
    rw [hstep, ih (sound.emit _)]
    simp [Host.emit, busEvents]

def byteEvents (rs : Bool) (v : UInt8) : List GpioEvent :=
  [.write .rs rs true, .write .rw false true] ++ busEvents v dataLines ++
    [.write .en true true, .write .en false true]

theorem lcdWrite_sound (rs : Bool) (v : UInt8) {h : Host} (sound : GpioSound env h) :
    lcdWrite env rs v h = (0, { h with events := h.events ++ byteEvents rs v }) := by
  let h₀ := (h.emit (.write .rs rs true)).emit (.write .rw false true)
  have h₁ : GpioSound env (h.emit (.write .rs rs true)) := sound.emit _
  have h₂ : GpioSound env h₀ := h₁.emit _
  let hb : Host := { h₀ with events := h₀.events ++ busEvents v dataLines }
  have bus : setDataBus env v h₀ = (0, hb) := setDataBusFrom_sound v dataLines h₂
  have h₃ : GpioSound env hb := ⟨sound.handles, sound.writes⟩
  have strobe : pulseEn env hb = (0, (hb.emit (.write .en true true)).emit (.write .en false true)) := by
    simp only [pulseEn, gpioWriteFd_sound h₃, gpioWriteFd_sound (h₃.emit _)]
    simp
  have walk : lcdWrite env rs v h = pulseEn env (setDataBus env v h₀).2 := by
    simp only [lcdWrite, gpioWriteFd_sound sound, gpioWriteFd_sound h₁, h₀]
  rw [walk, bus, strobe]
  simp [hb, h₀, Host.emit, byteEvents]

theorem settle_busEvents (level : Line → Bool) (v : UInt8) (is : List (Fin 8)) (l : Line) :
    settle level (lineWrites (busEvents v is)) l =
      match l with
      | .d i => if i ∈ is then v.toNat.testBit i else level l
      | _ => level l := by
  induction is generalizing level with
  | nil => cases l <;> rfl
  | cons j is ih =>
    have hstep : settle level (lineWrites (busEvents v (j :: is))) =
        settle (Function.update level (.d j) (v.toNat.testBit j)) (lineWrites (busEvents v is)) := rfl
    rw [hstep, ih]
    cases l with
    | rs => rfl
    | rw => rfl
    | en => rfl
    | d i =>
      by_cases hi : i = j
      · subst hi
        simp
      · simp [hi]

theorem busByte_settle (level : Line → Bool) (v : UInt8) :
    busByte (settle level (lineWrites (busEvents v dataLines))) = v := by
  have spelled : ∀ i : Fin 8,
      settle level (lineWrites (busEvents v dataLines)) (.d i) = v.toNat.testBit i := by
    intro i
    rw [settle_busEvents]
    exact if_pos (List.mem_finRange i)
  have table : ∀ n : Fin 256,
      UInt8.ofNat (dataLines.foldl (fun m i => m + (n.val.testBit i.val).toNat * 2 ^ i.val) 0) =
        UInt8.ofNat n.val := by
    decide +kernel
  have hv := table ⟨v.toNat, v.toNat_lt⟩
  simp only [busByte, spelled]
  simpa using hv

theorem busByte_update_en (level : Line → Bool) (v : Bool) :
    busByte (Function.update level .en v) = busByte level := by
  have hd : ∀ i : Fin 8, Function.update level .en v (.d i) = level (.d i) := by
    intro i
    apply Function.update_of_ne
    simp
  simp only [busByte, hd]

theorem sample_byteEvents (level : Line → Bool) (rs : Bool) (v : UInt8) :
    sample panelWiring level (lineWrites (byteEvents rs v)) = [⟨rs, v⟩] := by
  have hsplit : lineWrites (byteEvents rs v) =
      [(.rs, rs), (.rw, false)] ++ lineWrites (busEvents v dataLines) ++
        [(.en, true), (.en, false)] := by
    simp only [byteEvents, lineWrites_append]
    rfl
  have hquiet : ∀ x ∈ [(Line.rs, rs), (.rw, false)] ++ lineWrites (busEvents v dataLines),
      x.1 ≠ panelWiring.en := by
    intro x hx
    simp only [List.mem_append, List.mem_cons, List.not_mem_nil, or_false, lineWrites, busEvents,
      List.mem_filterMap, List.mem_map] at hx
    rcases hx with (rfl | rfl) | ⟨e, ⟨i, -, rfl⟩, he⟩
    · simp [panelWiring]
    · simp [panelWiring]
    · obtain rfl := Option.some.inj he
      simp [panelWiring]
  rw [hsplit, sample_append, sample_quiet _ _ hquiet, List.nil_append]
  have hstrobe := sample_strobe panelWiring
    (settle level ([(Line.rs, rs), (.rw, false)] ++ lineWrites (busEvents v dataLines)))
    (by simp [panelWiring]) busByte_update_en
  apply hstrobe.trans
  rw [settle_append]
  simp only [panelWiring, busByte_settle, settle_busEvents]
  rfl

theorem Host.received_lcdWrite (rs : Bool) (v : UInt8) {h : Host} (sound : GpioSound env h) :
    (lcdWrite env rs v h).2.received = h.received ++ [⟨rs, v⟩] := by
  rw [lcdWrite_sound rs v sound]
  simp only [received, lineWrites_append, sample_append, sample_byteEvents]

theorem GpioSound.lcdWrite (rs : Bool) (v : UInt8) {h : Host} (sound : GpioSound env h) :
    GpioSound env (LcdHw.lcdWrite env rs v h).2 := by
  rw [lcdWrite_sound rs v sound]
  exact ⟨sound.handles, sound.writes⟩

theorem lcdWriteText_sound (s : List UInt8) {h : Host} (sound : GpioSound env h) :
    (lcdWriteText env s h).2.received = h.received ++ s.map (fun u => ⟨true, u⟩) ∧
      GpioSound env (lcdWriteText env s h).2 := by
  simp only [lcdWriteText]
  induction s generalizing h with
  | nil => exact ⟨by simp, sound⟩
  | cons u s ih =>
    obtain ⟨hreceived, hsound⟩ := ih (sound.lcdWrite true u)
    refine ⟨?_, hsound⟩
    rw [List.foldl_cons, lcdWriteData, hreceived, Host.received_lcdWrite true u sound]
    simp

end Sound

end Evi7688.Lcdsvc.LcdHw
