import MethodHistory.Text.Quoted

/-!
This module contains the reading of bytes as text. Bytes that are not UTF-8 are refused, or read as
well: each longest stretch that starts a character and cannot be completed stands for one
replacement character.
-/

namespace MethodHistory
namespace Text
namespace Utf8

/--
The characters that a lead byte can still become: how many bytes are missing, the bounds of the next
one, and the bits read so far.
-/
structure Pending where
  missing : Nat
  low : Nat
  high : Nat
  bits : Nat

/--
The bounds after a lead byte leave out the overlong forms, the surrogates and what lies above the
last code point.
-/
def Pending.ofLead? (byte : Nat) : Option Pending :=
  if 0xC2 ≤ byte ∧ byte ≤ 0xDF then some ⟨1, 0x80, 0xBF, byte - 0xC0⟩
  else if byte = 0xE0 then some ⟨2, 0xA0, 0xBF, 0⟩
  else if byte = 0xED then some ⟨2, 0x80, 0x9F, 0xD⟩
  else if 0xE1 ≤ byte ∧ byte ≤ 0xEF then some ⟨2, 0x80, 0xBF, byte - 0xE0⟩
  else if byte = 0xF0 then some ⟨3, 0x90, 0xBF, 0⟩
  else if 0xF1 ≤ byte ∧ byte ≤ 0xF3 then some ⟨3, 0x80, 0xBF, byte - 0xF0⟩
  else if byte = 0xF4 then some ⟨3, 0x80, 0x8F, 4⟩
  else none

def replacement : Char := '\uFFFD'

def decode (bytes : List UInt8) : List Char :=
  go none bytes
where
  /--
  The character or the pending state that a byte opens.
  -/
  lead (byte : Nat) (rest : Option Pending → List Char) : List Char :=
    if byte < 0x80 then
      Char.ofNat byte :: rest none
    else
      match Pending.ofLead? byte with
      | some pending => rest (some pending)
      | none => replacement :: rest none
  go (pending : Option Pending) (bytes : List UInt8) : List Char :=
    match bytes with
    | [] => if pending.isSome then [replacement] else []
    | byte :: bytes =>
      match pending with
      | none => lead byte.toNat (go · bytes)
      | some p =>
        if p.low ≤ byte.toNat ∧ byte.toNat ≤ p.high then
          let bits := p.bits * 64 + (byte.toNat - 0x80)
          if p.missing ≤ 1 then
            Char.ofNat bits :: go none bytes
          else
            go (some ⟨p.missing - 1, 0x80, 0xBF, bits⟩) bytes
        else
          replacement :: lead byte.toNat (go · bytes)

def toText (bytes : ByteArray) : String :=
  .ofList (decode bytes.toList)

inductive Complaint where
  | start
  | continuation
  | ending
  deriving DecidableEq

def Complaint.label : Complaint → String
  | start => "invalid start byte"
  | continuation => "invalid continuation byte"
  | ending => "unexpected end of data"

structure Fault where
  place : Nat
  stretch : List UInt8
  complaint : Complaint
  deriving DecidableEq

def Fault.message (fault : Fault) : String :=
  let stretch :=
    match fault.stretch with
    | [byte] => "byte 0x" ++ .ofList (hexDigits 2 byte.toNat) ++ " in position "
      ++ toString fault.place
    | stretch => "bytes in position " ++ toString fault.place ++ "-"
      ++ toString (fault.place + stretch.length - 1)
  "'utf-8' codec can't decode " ++ stretch ++ ": " ++ fault.complaint.label

def read (bytes : List UInt8) : Except Fault (List Char) :=
  go 0 none bytes
where
  go (place : Nat) (opened : Option (List UInt8 × Pending)) (bytes : List UInt8)
      : Except Fault (List Char) :=
    match bytes, opened with
    | [], none => .ok []
    | [], some (stretch, _) => .error ⟨place - stretch.length, stretch, .ending⟩
    | byte :: bytes, none =>
      if byte.toNat < 0x80 then
        (go (place + 1) none bytes).map (Char.ofNat byte.toNat :: ·)
      else
        match Pending.ofLead? byte.toNat with
        | some pending => go (place + 1) (some ([byte], pending)) bytes
        | none => .error ⟨place, [byte], .start⟩
    | byte :: bytes, some (stretch, p) =>
      if p.low ≤ byte.toNat ∧ byte.toNat ≤ p.high then
        let bits := p.bits * 64 + (byte.toNat - 0x80)
        if p.missing ≤ 1 then
          (go (place + 1) none bytes).map (Char.ofNat bits :: ·)
        else
          go (place + 1) (some (stretch ++ [byte], ⟨p.missing - 1, 0x80, 0xBF, bits⟩)) bytes
      else
        .error ⟨place - stretch.length, stretch, .continuation⟩

/-! What is read is what is decoded -/

theorem decode_go_of_read_go {place : Nat} {opened : Option (List UInt8 × Pending)}
    {bytes : List UInt8} {cs : List Char} (h : read.go place opened bytes = .ok cs)
    : decode.go (opened.map Prod.snd) bytes = cs := by
  have hmap {c : Char} {result : Except Fault (List Char)} {cs : List Char}
      (h : result.map (c :: ·) = .ok cs) : ∃ rest, result = .ok rest ∧ c :: rest = cs := by
    cases result with
    | error => cases h
    | ok rest => exact ⟨rest, rfl, Except.ok.inj h⟩
  fun_induction read.go place opened bytes generalizing cs with
  | case1 => exact Except.ok.inj h
  | case2 => cases h
  | case3 place byte bytes hbyte ih =>
    obtain ⟨rest, hrest, rfl⟩ := hmap h
    rw [Option.map_none, decode.go, decode.lead, if_pos hbyte, ← ih hrest]
    rfl
  | case4 place byte bytes hbyte pending hpending ih =>
    rw [Option.map_none, decode.go, decode.lead, if_neg hbyte, hpending]
    exact ih h
  | case5 => cases h
  | case6 _ _ _ _ _ hrange =>
    rename_i hmissing ih
    obtain ⟨rest, hrest, rfl⟩ := hmap h
    rw [Option.map_some, decode.go, if_pos hrange, if_pos hmissing, ← ih hrest]
    rfl
  | case7 _ _ _ _ _ hrange =>
    rename_i hmissing ih
    rw [Option.map_some, decode.go, if_pos hrange, if_neg hmissing]
    exact ih h
  | case8 => cases h

theorem decode_of_read {bytes : List UInt8} {cs : List Char} (h : read bytes = .ok cs)
    : decode bytes = cs :=
  decode_go_of_read_go h

end Utf8
end Text
end MethodHistory
