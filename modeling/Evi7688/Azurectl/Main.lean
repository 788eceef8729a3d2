/- Evi7688/Azurectl/Main
   digest: The relay commands of evi-azurectl, one shell command at a time. -/

import Evi7688.Azurectl.Uci

set_option autoImplicit false
set_option relaxedAutoImplicit false

namespace Evi7688.Azurectl.Main

open Evi7688.Library.Bytes (ascii)
open Evi7688.Library.Numerals (scanInt scanHex)
open Uci

inductive Act
  | on | off
  deriving DecidableEq

/-- A relay command: `--set setDevOn,<val>` or `--set setDevOff,<val>` with a port in range. -/
structure Request where
  act : Act
  port : Nat
  inRange : 1 ≤ port ∧ port ≤ 4
  deriving DecidableEq

def parseHexU8 (s : List UInt8) : Int :=
  match scanHex s with
  | none => -1
  | some v => if v > 0xFF then -1 else v

def atoi (s : List UInt8) : Int := (scanInt s).getD 0

/-- The port of `<val>`: hexadecimal where that gives a positive number, decimal otherwise. -/
def portOf (valStr : List UInt8) : Int :=
  if parseHexU8 valStr ≥ 1 then parseHexU8 valStr else atoi valStr

def parseSetDev (key valStr : List UInt8) : Option Request :=
  if ascii "setDev" <+: key then
    if h : portOf valStr < 1 ∨ portOf valStr > 4 then none
    else some ⟨if key.drop 6 = ascii "On" then .on else .off, (portOf valStr).toNat, by omega⟩
  else none

def dongleportKey : List UInt8 := ascii "system.@system[0].dongleport"

/-- The bit arithmetic on a mask that was read; a negative mask counts as empty. -/
def newMask (req : Request) (mask : Int) : Int :=
  let mask := BitVec.ofInt 32 (if mask < 0 then 0 else mask)
  let bit := 1#32 <<< (req.port - 1)
  match req.act with
  | .on => (mask ||| bit).toInt
  | .off => (mask &&& ~~~bit).toInt

/-- The next thing a process does: switch the relay, read the mask, write it, commit. -/
inductive Point
  | relay
  | read
  | write (mask : Int)
  | commit
  | finished
  deriving DecidableEq

structure System where
  store : UciStore
  point : Bool → Point

def System.goto (s : System) (p : Bool) (pt : Point) : System :=
  { s with point := Function.update s.point p pt }

/-- One step of process `p`; `usbSetPort` gives the result of switching the relay. -/
def step (usbSetPort : Request → Int) (req : Bool → Request) (s : System) (p : Bool) : System :=
  match s.point p with
  | .relay => s.goto p (if usbSetPort (req p) = 0 then .read else .finished)
  | .read => s.goto p (.write (uciGetInt (s.store.values dongleportKey)))
  | .write mask =>
    { s.goto p .commit with store := uciSetInt dongleportKey (newMask (req p) mask) s.store }
  | .commit => { s.goto p .finished with store := uciCommit s.store }
  | .finished => s

/-- Both processes from their start, in the order of a schedule. -/
def run (usbSetPort : Request → Int) (req : Bool → Request) (st : UciStore)
    (schedule : List Bool) : System :=
  schedule.foldl (step usbSetPort req) ⟨st, fun _ => .relay⟩

end Evi7688.Azurectl.Main
