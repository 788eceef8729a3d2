/- Evi7688/Azurectl/ModbusRtu
   digest: Reading the meter's registers: which replies are accepted, and how they may arrive. -/

import Evi7688.Azurectl.Crc16

set_option autoImplicit false
set_option relaxedAutoImplicit false

namespace Evi7688.Azurectl.ModbusRtu

open Crc16

/-- The serial line during one exchange. The reply is `stream`; `waiting i` of its bytes are there
for read number `i`, which fails if there is no number. -/
structure Line where
  fd : Int
  written : Int
  stream : List UInt8
  waiting : Nat → Option Nat

/-- `serial_read` of `n` bytes when `rest` of the reply is still to come. -/
def Line.serialRead (line : Line) (i : Nat) (rest : List UInt8) (n : Nat) : Int × List UInt8 :=
  match line.waiting i with
  | none => (-1, [])
  | some k => ((rest.take (min k n)).length, rest.take (min k n))

/-- The result, the memory from `out` on and `*outn` afterwards, the bytes handed to
`serial_write`, and whether the handle was closed. -/
structure Outcome where
  result : Int
  out : Nat → UInt8
  outn : Nat
  req : List UInt8
  closed : Bool

def store (out : Nat → UInt8) (bytes : List UInt8) : Nat → UInt8 := fun i => bytes.getD i (out i)

def request (id : UInt8) (addr count : UInt16) : List UInt8 :=
  let req := [id, 0x03, (addr >>> 8).toUInt8, addr.toUInt8, (count >>> 8).toUInt8, count.toUInt8]
  req ++ crcBytes (crc16 req)

def mbReadHoldingRegs (line : Line) (id : UInt8) (addr count : UInt16) (out : Nat → UInt8)
    (outcap outn : Nat) : Outcome :=
  if line.fd < 0 then ⟨-1, out, outn, [], false⟩
  else
    let req := request id addr count
    if line.written ≠ 8 then ⟨-2, out, outn, req, true⟩
    else
      let hdr := line.serialRead 0 line.stream 3
      if hdr.1 ≠ 3 then ⟨-3, out, outn, req, true⟩
      else if hdr.2.getD 0 0 ≠ id ∨ hdr.2.getD 1 0 ≠ 0x03 then ⟨-4, out, outn, req, true⟩
      else
        let bytecnt := (hdr.2.getD 2 0).toNat
        if outcap < bytecnt + 2 then ⟨-5, out, outn, req, true⟩
        else
          let body := line.serialRead 1 (line.stream.drop hdr.2.length) (bytecnt + 2)
          if body.1 ≠ (bytecnt + 2 : Nat) then ⟨-6, store out body.2, outn, req, true⟩
          else if crcCalc hdr.2 (body.2.take bytecnt) ≠ crcRecv body.2 bytecnt then
            ⟨-8, store out body.2, outn, req, true⟩
          else ⟨0, store out body.2, bytecnt, req, true⟩

/-- A well-formed reply that carries `data`. -/
def frame (id : UInt8) (data : List UInt8) : List UInt8 :=
  let hdr := [id, 0x03, UInt8.ofNat data.length]
  hdr ++ data ++ crcBytes (crc16 (hdr ++ data))

/-- The exchange gets as far as the reply, and each read finds all that it asks for. -/
structure Line.Delivers (line : Line) (n : Nat) : Prop where
  opened : 0 ≤ line.fd
  written : line.written = 8
  header : ∃ k, line.waiting 0 = some k ∧ 3 ≤ k
  body : ∃ k, line.waiting 1 = some k ∧ n + 2 ≤ k

/-- Success stands for the reply that was asked for, failure leaves `*outn`, and neither writes
past the capacity. -/
structure Outcome.Answers (r : Outcome) (line : Line) (id : UInt8) (count : UInt16)
    (out : Nat → UInt8) (outcap outn : Nat) : Prop where
  accepted : r.result = 0 → ∃ data tail, line.stream = frame id data ++ tail ∧
    data.length = 2 * count.toNat ∧ data.length < 256 ∧ r.outn = 2 * count.toNat ∧
    r.outn + 2 ≤ outcap ∧ (List.range r.outn).map r.out = data
  refused : r.result ≠ 0 → r.outn = outn
  bounded : ∀ i, outcap ≤ i → r.out i = out i

/-- Success, with exactly these data. -/
structure Outcome.Returns (r : Outcome) (data : List UInt8) : Prop where
  result : r.result = 0
  outn : r.outn = data.length
  out : (List.range r.outn).map r.out = data

theorem request_checks (id : UInt8) (addr count : UInt16) :
    crc16 ((request id addr count).take 6) = crcRecv (request id addr count) 6 :=
  (crcRecv_crcBytes [id, 0x03, _, _, _, _] _).symm

section Reading

theorem serialRead_eq_iff (line : Line) (i n : Nat) (rest : List UInt8) :
    (line.serialRead i rest n).1 = n ↔
      (∃ k, line.waiting i = some k ∧ n ≤ k) ∧ n ≤ rest.length := by
  unfold Line.serialRead
  cases line.waiting i with
  | none =>
    constructor
    · intro h
      exact absurd h (by simp)
    · rintro ⟨⟨k, hwaiting, -⟩, -⟩
      cases hwaiting
  | some k =>
    simp only [List.length_take, Option.some.injEq, exists_eq_left']
    omega

theorem serialRead_bytes {line : Line} {i n : Nat} {rest : List UInt8}
    (h : (line.serialRead i rest n).1 = n) : (line.serialRead i rest n).2 = rest.take n := by
  obtain ⟨⟨k, hwaiting, hk⟩, -⟩ := (serialRead_eq_iff line i n rest).mp h
  simp only [Line.serialRead, hwaiting, Nat.min_eq_right hk]

theorem serialRead_append {line : Line} {i n : Nat} {xs : List UInt8} (hn : xs.length = n)
    (enough : ∃ k, line.waiting i = some k ∧ n ≤ k) (ys : List UInt8) :
    line.serialRead i (xs ++ ys) n = ((n : Int), xs) := by
  obtain ⟨k, hwaiting, hk⟩ := enough
  subst hn
  simp only [Line.serialRead, hwaiting, Nat.min_eq_right hk, List.take_left]

theorem length_serialRead_le (line : Line) (i n : Nat) (rest : List UInt8) :
    (line.serialRead i rest n).2.length ≤ n := by
  unfold Line.serialRead
  cases line.waiting i with
  | none => exact Nat.zero_le n
  | some k =>
    simp only [List.length_take]
    omega

theorem store_nil (out : Nat → UInt8) : store out [] = out := rfl

theorem store_of_length_le (out : Nat → UInt8) {bytes : List UInt8} {i : Nat}
    (h : bytes.length ≤ i) : store out bytes i = out i :=
  List.getD_eq_default _ _ h

theorem range_map_store (out : Nat → UInt8) (data rest : List UInt8) :
    (List.range data.length).map (store out (data ++ rest)) = data := by
  apply List.ext_getElem
  · simp
  · intro i hi hi'
    simp [store, List.getD_eq_getElem?_getD, List.getElem?_append_left hi', hi']

end Reading

section Exchange

variable (line : Line) (id : UInt8) (addr count : UInt16) (out : Nat → UInt8) (outcap outn : Nat)

/-- A failing call stores at most what fits, and keeps `*outn`; a successful one has read a header
of the request, and a body with the right sum that fits. -/
theorem mbReadHoldingRegs_cases :
    (∃ rc bytes req, rc ≠ 0 ∧ bytes.length ≤ outcap ∧
      mbReadHoldingRegs line id addr count out outcap outn =
        ⟨rc, store out bytes, outn, req, decide (0 ≤ line.fd)⟩) ∨
    ∃ c body, 0 ≤ line.fd ∧ line.written = 8 ∧
      line.serialRead 0 line.stream 3 = (3, [id, 3, c]) ∧ c.toNat + 2 ≤ outcap ∧
      line.serialRead 1 (line.stream.drop 3) (c.toNat + 2) = (((c.toNat + 2 : Nat) : Int), body) ∧
      crcCalc [id, 3, c] (body.take c.toNat) = crcRecv body c.toNat ∧
      mbReadHoldingRegs line id addr count out outcap outn =
        ⟨0, store out body, c.toNat, request id addr count, true⟩ := by
  by_cases hfd : 0 ≤ line.fd
  · have hopen : ¬ line.fd < 0 := by omega
    rw [decide_eq_true hfd]
    generalize hr : mbReadHoldingRegs line id addr count out outcap outn = r
    rw [mbReadHoldingRegs, if_neg hopen] at hr
    dsimp only at hr
    generalize hfirst : line.serialRead 0 line.stream 3 = first at hr
    obtain ⟨n, hdr⟩ := first
    dsimp only at hr
    generalize hsecond : line.serialRead 1 (line.stream.drop hdr.length)
      ((hdr.getD 2 0).toNat + 2) = second at hr
    obtain ⟨m, body⟩ := second
    dsimp only at hr
    have hfits : body.length ≤ (hdr.getD 2 0).toNat + 2 := by
      have hread := length_serialRead_le line 1 ((hdr.getD 2 0).toNat + 2)
        (line.stream.drop hdr.length)
      rwa [hsecond] at hread
    split_ifs at hr with hwritten hheader hfields hroom hbody hcrc
    · exact Or.inl ⟨-2, [], _, by decide, Nat.zero_le _, hr.symm⟩
    · exact Or.inl ⟨-3, [], _, by decide, Nat.zero_le _, hr.symm⟩
    · exact Or.inl ⟨-4, [], _, by decide, Nat.zero_le _, hr.symm⟩
    · exact Or.inl ⟨-5, [], _, by decide, Nat.zero_le _, hr.symm⟩
    · exact Or.inl ⟨-6, body, _, by decide, by omega, hr.symm⟩
    · exact Or.inl ⟨-8, body, _, by decide, by omega, hr.symm⟩
    · rw [not_not] at hwritten hheader hbody hcrc
      subst hheader hbody
      have hn := congrArg Prod.fst hfirst
      have hlong := ((serialRead_eq_iff line 0 3 _).mp hn).2
      have hbytes : hdr = line.stream.take 3 := by rw [← serialRead_bytes (n := 3) hn, hfirst]
      have hlength : hdr.length = 3 := by
        rw [hbytes, List.length_take]
        omega
      obtain ⟨a, b, c, rfl⟩ := List.length_eq_three.mp hlength
      obtain ⟨rfl, rfl⟩ : a = id ∧ b = 3 := by simpa using hfields
      exact Or.inr ⟨c, body, hfd, hwritten, rfl, by simpa using hroom, hsecond, hcrc, hr.symm⟩
  · have hclosed : line.fd < 0 := by omega
    refine Or.inl ⟨-1, [], [], by decide, Nat.zero_le _, ?_⟩
    rw [mbReadHoldingRegs, if_pos hclosed, decide_eq_false hfd, store_nil]

theorem closed_iff :
    (mbReadHoldingRegs line id addr count out outcap outn).closed = true ↔ 0 ≤ line.fd := by
  rcases mbReadHoldingRegs_cases line id addr count out outcap outn with
    ⟨rc, bytes, req, -, -, hfail⟩ | ⟨c, body, hfd, -, -, -, -, -, hok⟩
  · rw [hfail]
    exact decide_eq_true_iff
  · rw [hok]
    exact iff_of_true rfl hfd

theorem out_of_outcap_le {i : Nat} (h : outcap ≤ i) :
    (mbReadHoldingRegs line id addr count out outcap outn).out i = out i := by
  rcases mbReadHoldingRegs_cases line id addr count out outcap outn with
    ⟨rc, bytes, req, -, hfits, hfail⟩ | ⟨c, body, -, -, -, hroom, hsecond, -, hok⟩
  · rw [hfail]
    exact store_of_length_le out (by omega)
  · have hfits := length_serialRead_le line 1 (c.toNat + 2) (line.stream.drop 3)
    rw [hsecond] at hfits
    rw [hok]
    exact store_of_length_le out (Nat.le_trans hfits (by omega))

theorem outn_of_ne_zero
    (h : (mbReadHoldingRegs line id addr count out outcap outn).result ≠ 0) :
    (mbReadHoldingRegs line id addr count out outcap outn).outn = outn := by
  rcases mbReadHoldingRegs_cases line id addr count out outcap outn with
    ⟨rc, bytes, req, -, -, hfail⟩ | ⟨c, body, -, -, -, -, -, -, hok⟩
  · rw [hfail]
  · rw [hok] at h
    exact absurd rfl h

variable {line id}

theorem mbReadHoldingRegs_frame {data tail : List UInt8}
    (stream : line.stream = frame id data ++ tail) (short : data.length < 256)
    (room : data.length + 2 ≤ outcap) (delivers : line.Delivers data.length) :
    mbReadHoldingRegs line id addr count out outcap outn =
      ⟨0, store out (data ++ crcBytes (crc16 ([id, 0x03, UInt8.ofNat data.length] ++ data))),
        data.length, request id addr count, true⟩ := by
  obtain ⟨hfd, hwritten, hheader, hbody⟩ := delivers
  let hdr := [id, 0x03, UInt8.ofNat data.length]
  let sum := crcBytes (crc16 (hdr ++ data))
  have hstream : line.stream = hdr ++ (data ++ sum ++ tail) := by
    rw [stream, frame]
    simp only [List.append_assoc, sum, hdr]
  have hcount : (UInt8.ofNat data.length).toNat = data.length := by
    rw [UInt8.toNat_ofNat']
    omega
  have hfirst : line.serialRead 0 line.stream 3 = (3, hdr) := by
    rw [hstream]
    exact serialRead_append rfl hheader _
  have hrest : line.stream.drop 3 = data ++ sum ++ tail := by
    rw [hstream]
    rfl
  have hsize : (data ++ sum).length = data.length + 2 := List.length_append
  have hsecond : line.serialRead 1 (data ++ sum ++ tail) (data.length + 2) =
      (((data.length + 2 : Nat) : Int), data ++ sum) := serialRead_append hsize hbody tail
  have hcrc : crcCalc hdr data = crcRecv (data ++ sum) data.length := by
    rw [crcRecv_crcBytes, crcCalc, crc16, List.foldl_append]
  unfold mbReadHoldingRegs
  simp only [hfirst, hdr, List.length_cons, List.length_nil, Nat.zero_add, Nat.reduceAdd, hrest,
    List.getD_cons_zero, List.getD_cons_succ, hcount, hsecond, List.take_left]
  rw [if_neg (by omega), if_neg (by omega), if_neg (by simp), if_neg (by simp),
    if_neg (by omega), if_neg (by simp), if_neg (not_not.mpr hcrc)]

theorem exists_frame_of_check {c : UInt8} {stream : List UInt8}
    (header : stream.take 3 = [id, 3, c]) (enough : c.toNat + 2 ≤ (stream.drop 3).length)
    (check : crcCalc [id, 3, c] (((stream.drop 3).take (c.toNat + 2)).take c.toNat) =
      crcRecv ((stream.drop 3).take (c.toNat + 2)) c.toNat) :
    ∃ data tail, stream = frame id data ++ tail ∧ data.length = c.toNat := by
  obtain ⟨low, high, hsum⟩ := List.length_eq_two.mp
    (show (((stream.drop 3).drop c.toNat).take 2).length = 2 by
      rw [List.length_take, List.length_drop]; omega)
  let data := (stream.drop 3).take c.toNat
  have hlength : data.length = c.toNat := by
    rw [List.length_take]
    omega
  have hreply : (stream.drop 3).take (c.toNat + 2) = data ++ [low, high] := by
    rw [List.take_add, hsum]
  have hcount : UInt8.ofNat data.length = c := by rw [hlength, UInt8.ofNat_toNat]
  have hcrcBytes : crcBytes (crc16 ([id, 3, c] ++ data)) = [low, high] := by
    rw [← crcBytes_crcRecv data low high, hlength, ← hreply, ← check, crcCalc, crc16,
      List.foldl_append, List.take_take, Nat.min_eq_left (by omega)]
  refine ⟨data, (stream.drop 3).drop (c.toNat + 2), ?_, hlength⟩
  rw [frame, hcount, hcrcBytes, List.append_assoc [id, 3, c], ← hreply, List.append_assoc,
    List.take_append_drop, ← header, List.take_append_drop]

theorem exists_frame (h : (mbReadHoldingRegs line id addr count out outcap outn).result = 0) :
    ∃ data tail, line.stream = frame id data ++ tail ∧ data.length < 256 ∧
      data.length + 2 ≤ outcap ∧ line.Delivers data.length := by
  rcases mbReadHoldingRegs_cases line id addr count out outcap outn with
    ⟨rc, bytes, req, hrc, -, hfail⟩ | ⟨c, body, hfd, hwritten, hfirst, hroom, hsecond, hcrc, -⟩
  · rw [hfail] at h
    exact absurd h hrc
  · have hn := congrArg Prod.fst hfirst
    have hm := congrArg Prod.fst hsecond
    obtain ⟨hheader, -⟩ := (serialRead_eq_iff line 0 3 _).mp hn
    obtain ⟨hbody, henough⟩ := (serialRead_eq_iff line 1 _ _).mp hm
    have hthree : line.stream.take 3 = [id, 3, c] := by
      rw [← serialRead_bytes (n := 3) hn, hfirst]
    have hrest : body = (line.stream.drop 3).take (c.toNat + 2) := by
      rw [← serialRead_bytes hm, hsecond]
    rw [hrest] at hcrc
    obtain ⟨data, tail, hstream, hlength⟩ := exists_frame_of_check hthree henough hcrc
    refine ⟨data, tail, hstream, ?_, by omega, ?_⟩
    · rw [hlength]
      exact c.toNat_lt
    · rw [hlength]
      exact ⟨hfd, hwritten, hheader, hbody⟩

end Exchange

/-- The reader keeps its word unless a well-formed reply with another number of registers comes
in whole: the byte count is only held against the capacity. -/
theorem answers_iff (line : Line) (id : UInt8) (addr count : UInt16) (out : Nat → UInt8)
    (outcap outn : Nat) :
    (mbReadHoldingRegs line id addr count out outcap outn).Answers line id count out outcap outn ↔
      ∀ data tail, line.stream = frame id data ++ tail → data.length < 256 →
        data.length + 2 ≤ outcap → line.Delivers data.length →
        data.length = 2 * count.toNat := by
  constructor
  · intro answers data tail hstream hshort hroom hdelivers
    have haccepts :=
      mbReadHoldingRegs_frame addr count out outcap outn hstream hshort hroom hdelivers
    rw [haccepts] at answers
    obtain ⟨-, -, -, -, -, houtn, -, -⟩ := answers.accepted rfl
    exact houtn
  · intro asked
    constructor
    · intro hzero
      obtain ⟨data, tail, hstream, hshort, hroom, hdelivers⟩ :=
        exists_frame addr count out outcap outn hzero
      have hlength := asked data tail hstream hshort hroom hdelivers
      rw [mbReadHoldingRegs_frame addr count out outcap outn hstream hshort hroom hdelivers]
      exact ⟨data, tail, hstream, hlength, hshort, hlength, hroom, range_map_store _ _ _⟩
    · exact outn_of_ne_zero line id addr count out outcap outn
    · intro i hi
      exact out_of_outcap_le line id addr count out outcap outn hi

/-- The reply to a request for two registers, nine bytes that are all there. -/
def twoRegisters : Line := ⟨3, 8, frame 1 [0, 10, 0, 20], fun _ => some 9⟩

/-- One register is asked for, and the two are taken. -/
theorem two_registers_for_one :
    ¬ (mbReadHoldingRegs twoRegisters 1 0 1 (fun _ => 0) 16 0).Answers twoRegisters 1 1
      (fun _ => 0) 16 0 := by
  intro answers
  have hstream : twoRegisters.stream = frame 1 [0, 10, 0, 20] ++ [] := (List.append_nil _).symm
  have hdelivers : twoRegisters.Delivers 4 :=
    ⟨by simp [twoRegisters], rfl, ⟨9, rfl, by simp⟩, 9, rfl, by simp⟩
  have haccepts := mbReadHoldingRegs_frame 0 1 (fun _ => 0) 16 0 hstream (by simp) (by simp)
    hdelivers
  rw [haccepts] at answers
  obtain ⟨-, -, -, -, -, houtn, -, -⟩ := answers.accepted rfl
  exact absurd houtn (by decide)

/-- A reply to this very request is taken exactly if each of the two reads finds all its bytes. -/
theorem returns_iff {line : Line} {id : UInt8} (addr count : UInt16) (out : Nat → UInt8)
    {outcap : Nat} (outn : Nat) {data : List UInt8} {arrived : Nat → Nat} (opened : 0 ≤ line.fd)
    (written : line.written = 8) (stream : line.stream = frame id data)
    (asked : data.length = 2 * count.toNat) (short : data.length < 256)
    (room : data.length + 2 ≤ outcap) (waiting : ∀ i, line.waiting i = some (arrived i)) :
    (mbReadHoldingRegs line id addr count out outcap outn).Returns data ↔
      3 ≤ arrived 0 ∧ data.length + 2 ≤ arrived 1 := by
  have hwhole : line.Delivers data.length ↔ 3 ≤ arrived 0 ∧ data.length + 2 ≤ arrived 1 := by
    constructor
    · rintro ⟨-, -, ⟨h, hheader, hthree⟩, b, hbody, hrest⟩
      rw [waiting, Option.some.injEq] at hheader hbody
      omega
    · rintro ⟨hthree, hrest⟩
      exact ⟨opened, written, ⟨_, waiting 0, hthree⟩, _, waiting 1, hrest⟩
  rw [← hwhole]
  have hstream : line.stream = frame id data ++ [] := by rw [stream, List.append_nil]
  constructor
  · intro returns
    obtain ⟨data', tail, hstream', hshort, hroom, hdelivers⟩ :=
      exists_frame addr count out outcap outn returns.result
    have haccepts := mbReadHoldingRegs_frame addr count out outcap outn hstream' hshort hroom
      hdelivers
    have houtn := returns.outn
    rw [haccepts] at houtn
    rw [← houtn]
    exact hdelivers
  · intro delivers
    rw [mbReadHoldingRegs_frame addr count out outcap outn hstream short room delivers]
    exact ⟨rfl, rfl, range_map_store _ _ _⟩

/-- The reply that reports one register, as it arrives for each read. -/
def oneRegister (arrived : Nat → Nat) : Line :=
  ⟨3, 8, frame 1 [0, 10], fun i => some (arrived i)⟩

theorem returns_iff_one_register :
    (mbReadHoldingRegs (oneRegister fun i => 3 + i) 1 0 1 (fun _ => 0) 16 0).Returns
      [0, 10] := by
  have hopened : 0 ≤ (oneRegister fun i => 3 + i).fd := by simp [oneRegister]
  have hstream : (oneRegister fun i => 3 + i).stream = frame 1 [0, 10] := rfl
  apply (returns_iff 0 1 (fun _ => 0) 0 hopened rfl hstream rfl (by simp) (by simp)
    (fun _ => rfl)).mpr
  exact ⟨Nat.le_refl 3, Nat.le_refl 4⟩

/-- The same reply, a byte to each read. -/
theorem byte_by_byte :
    ¬ (mbReadHoldingRegs (oneRegister fun _ => 1) 1 0 1 (fun _ => 0) 16 0).Returns [0, 10] := by
  intro returns
  have hresult : (mbReadHoldingRegs (oneRegister fun _ => 1) 1 0 1 (fun _ => 0) 16
      0).result = -3 := rfl
  exact absurd (hresult.symm.trans returns.result) (by simp)

end Evi7688.Azurectl.ModbusRtu
