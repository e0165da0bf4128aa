import Mathlib.Data.Nat.Bitwise

/-!
# The 64-bit `user_data` word

Every submission carries one 64-bit word that the kernel copies into its completion. The code packs
the file descriptor, the operation and the ring's generation into it (`encodeUserData`) and reads
them back from the completion (`UserData.fd`, `UserData.opType`, `UserData.generation`). Nothing
else of a submission comes back, so the round trip here is what lets the rest of the development
speak of *the descriptor and operation of a completion*.

The word is handled as a sum of disjoint fields (`encodeUserData_toNat`); each reader is then a
division and a remainder.
-/

namespace Uringcore

/-- A raw descriptor, `i32` in the source (negative values included). -/
abbrev Fd := Int32

abbrev Bytes := List UInt8

/-- Operation types encoded in `user_data`. -/
inductive OpType where
  | recv | send | accept | connect | close | timeout | recvMulti | sendZC | acceptMulti
  | recvMsg | sendMsg | provideBuffer | fixedFdTable | unknown
  deriving DecidableEq, Repr

namespace OpType

/-- The `#[repr(u8)]` discriminant. -/
def code : OpType → UInt8
  | recv => 0
  | send => 1
  | accept => 2
  | connect => 3
  | close => 4
  | timeout => 5
  | recvMulti => 6
  | sendZC => 7
  | acceptMulti => 8
  | recvMsg => 9
  | sendMsg => 10
  | provideBuffer => 11
  | fixedFdTable => 12
  | unknown => 255

def fromU8 (v : UInt8) : OpType :=
  match v.toNat with
  | 0 => recv
  | 1 => send
  | 2 => accept
  | 3 => connect
  | 4 => close
  | 5 => timeout
  | 6 => recvMulti
  | 7 => sendZC
  | 8 => acceptMulti
  | 9 => recvMsg
  | 10 => sendMsg
  | 11 => provideBuffer
  | 12 => fixedFdTable
  | _ => unknown

/-- The name a completion is reported to Python under. -/
def asStr : OpType → String
  | recv => "recv"
  | send => "send"
  | accept => "accept"
  | connect => "connect"
  | close => "close"
  | timeout => "timeout"
  | recvMulti => "recv_multi"
  | sendZC => "send_zc"
  | acceptMulti => "accept_multi"
  | recvMsg => "recvmsg"
  | sendMsg => "sendmsg"
  | provideBuffer => "provide_buffer"
  | fixedFdTable => "fixed_fd_table"
  | unknown => "unknown"

@[simp] theorem fromU8_code (op : OpType) : fromU8 op.code = op := by
  cases op <;> rfl

end OpType

/-- Pack the descriptor (bits 0–31), the operation (32–39) and the generation (48–63). -/
def encodeUserData (fd : Fd) (opType : OpType) (generation : UInt16) : UInt64 :=
  fd.toUInt32.toUInt64 ||| (opType.code.toUInt64 <<< 32) ||| (generation.toUInt64 <<< 48)

namespace UserData

def fd (userData : UInt64) : Fd := (userData &&& 0xFFFFFFFF).toUInt32.toInt32

def opType (userData : UInt64) : OpType := .fromU8 ((userData >>> 32) &&& 0xFF).toUInt8

def generation (userData : UInt64) : UInt16 := ((userData >>> 48) &&& 0xFFFF).toUInt16

end UserData

/-! ## The round trip -/

/-- The three fields do not overlap, so the word is their sum. -/
theorem encodeUserData_toNat (fd : Fd) (opType : OpType) (generation : UInt16) :
    (encodeUserData fd opType generation).toNat =
      fd.toUInt32.toNat + opType.code.toNat * 2 ^ 32 + generation.toNat * 2 ^ 48 := by
  have hf := fd.toUInt32.toNat_lt
  have ho := opType.code.toNat_lt
  have hg := generation.toNat_lt
  have hop : (opType.code.toUInt64 <<< 32).toNat = 2 ^ 32 * opType.code.toNat := by
    simp [UInt64.toNat_shiftLeft, Nat.shiftLeft_eq]
    omega
  have hgen : (generation.toUInt64 <<< 48).toNat = 2 ^ 48 * generation.toNat := by
    simp [UInt64.toNat_shiftLeft, Nat.shiftLeft_eq]
    omega
  have hlow : fd.toUInt32.toNat ||| 2 ^ 32 * opType.code.toNat =
      2 ^ 32 * opType.code.toNat + fd.toUInt32.toNat :=
    (Nat.lor_comm _ _).trans (Nat.two_pow_add_eq_or_of_lt hf _).symm
  have hhigh : (2 ^ 32 * opType.code.toNat + fd.toUInt32.toNat) ||| 2 ^ 48 * generation.toNat =
      2 ^ 48 * generation.toNat + (2 ^ 32 * opType.code.toNat + fd.toUInt32.toNat) :=
    (Nat.lor_comm _ _).trans (Nat.two_pow_add_eq_or_of_lt (by omega) _).symm
  rw [encodeUserData, UInt64.toNat_or, UInt64.toNat_or, hop, hgen, UInt32.toNat_toUInt64, hlow,
    hhigh]
  omega

namespace UserData

/-! Each reader is the word divided by the position of its field, modulo the width of it. -/

theorem fd_toNat (userData : UInt64) :
    (fd userData).toUInt32.toNat = userData.toNat % 2 ^ 32 := by
  have hmask : (0xFFFFFFFF : UInt64).toNat = 2 ^ 32 - 1 := rfl
  show (userData &&& 0xFFFFFFFF).toUInt32.toNat = _
  rw [UInt64.toNat_toUInt32, UInt64.toNat_and, hmask, Nat.and_two_pow_sub_one_eq_mod, Nat.mod_mod]

/-- The byte `opType` looks up. -/
def opByte (userData : UInt64) : UInt8 := ((userData >>> 32) &&& 0xFF).toUInt8

theorem opByte_toNat (userData : UInt64) :
    (opByte userData).toNat = userData.toNat / 2 ^ 32 % 2 ^ 8 := by
  have hmask : (0xFF : UInt64).toNat = 2 ^ 8 - 1 := rfl
  have hshift : (32 : UInt64).toNat % 64 = 32 := rfl
  rw [opByte, UInt64.toNat_toUInt8, UInt64.toNat_and, UInt64.toNat_shiftRight, hmask, hshift,
    Nat.and_two_pow_sub_one_eq_mod, Nat.shiftRight_eq_div_pow, Nat.mod_mod]

theorem generation_toNat (userData : UInt64) :
    (generation userData).toNat = userData.toNat / 2 ^ 48 := by
  have hw := userData.toNat_lt
  have hmask : (0xFFFF : UInt64).toNat = 2 ^ 16 - 1 := rfl
  have hshift : (48 : UInt64).toNat % 64 = 48 := rfl
  rw [generation, UInt64.toNat_toUInt16, UInt64.toNat_and, UInt64.toNat_shiftRight, hmask, hshift,
    Nat.and_two_pow_sub_one_eq_mod, Nat.shiftRight_eq_div_pow]
  omega

/-! The descriptor is compared as the `u32` it is cast to, so a negative one needs no case of its
own. -/

@[simp] theorem fd_encode (fd : Fd) (opType : OpType) (generation : UInt16) :
    UserData.fd (encodeUserData fd opType generation) = fd := by
  have hf := fd.toUInt32.toNat_lt
  have hcast : (UserData.fd (encodeUserData fd opType generation)).toUInt32 = fd.toUInt32 := by
    apply UInt32.toNat_inj.mp
    rw [fd_toNat, encodeUserData_toNat]
    omega
  rw [← Int32.toInt32_toUInt32 (UserData.fd _), hcast, Int32.toInt32_toUInt32]

@[simp] theorem opType_encode (fd : Fd) (opType : OpType) (generation : UInt16) :
    UserData.opType (encodeUserData fd opType generation) = opType := by
  have hf := fd.toUInt32.toNat_lt
  have ho := opType.code.toNat_lt
  have hbyte : opByte (encodeUserData fd opType generation) = opType.code := by
    apply UInt8.toNat_inj.mp
    rw [opByte_toNat, encodeUserData_toNat]
    omega
  show OpType.fromU8 (opByte _) = opType
  rw [hbyte, OpType.fromU8_code]

@[simp] theorem generation_encode (fd : Fd) (opType : OpType) (generation : UInt16) :
    UserData.generation (encodeUserData fd opType generation) = generation := by
  have hf := fd.toUInt32.toNat_lt
  have ho := opType.code.toNat_lt
  have hg := generation.toNat_lt
  apply UInt16.toNat_inj.mp
  rw [generation_toNat, encodeUserData_toNat]
  omega

/-- Nothing is lost: two submissions with one word are the same in all three fields. -/
theorem encode_inj {fd fd' : Fd} {opType opType' : OpType} {generation generation' : UInt16}
    (h : encodeUserData fd opType generation = encodeUserData fd' opType' generation') :
    fd = fd' ∧ opType = opType' ∧ generation = generation' := by
  refine ⟨?_, ?_, ?_⟩
  · have hfd := congrArg UserData.fd h
    rwa [fd_encode, fd_encode] at hfd
  · have hop := congrArg UserData.opType h
    rwa [opType_encode, opType_encode] at hop
  · have hgen := congrArg UserData.generation h
    rwa [generation_encode, generation_encode] at hgen

/-! ## The words that are encodings -/

/-- The reserved bits 40–47 are zero and bits 32–39 are the byte of an operation. -/
structure WellFormed (userData : UInt64) : Prop where
  reserved : (userData >>> 40) &&& 0xFF = 0
  operation : ∃ opType : OpType, opByte userData = opType.code

theorem reserved_toNat (userData : UInt64) :
    ((userData >>> 40) &&& 0xFF).toNat = userData.toNat / 2 ^ 40 % 2 ^ 8 := by
  have hmask : (0xFF : UInt64).toNat = 2 ^ 8 - 1 := rfl
  have hshift : (40 : UInt64).toNat % 64 = 40 := rfl
  rw [UInt64.toNat_and, UInt64.toNat_shiftRight, hmask, hshift, Nat.and_two_pow_sub_one_eq_mod,
    Nat.shiftRight_eq_div_pow]

/-- An operation byte that is in use is the code of what it is read as. -/
theorem WellFormed.code_opType {userData : UInt64} (h : WellFormed userData) :
    (opType userData).code = opByte userData := by
  obtain ⟨op, hop⟩ := h.operation
  show (OpType.fromU8 (opByte userData)).code = _
  rw [hop, OpType.fromU8_code]

/-- A well-formed word is the encoding of what is read from it. -/
theorem WellFormed.encode_eq {userData : UInt64} (h : WellFormed userData) :
    encodeUserData (fd userData) (opType userData) (generation userData) = userData := by
  have hw := userData.toNat_lt
  have hreserved : userData.toNat / 2 ^ 40 % 2 ^ 8 = 0 := by
    rw [← reserved_toNat, h.reserved]
    rfl
  apply UInt64.toNat_inj.mp
  rw [encodeUserData_toNat, fd_toNat, h.code_opType, opByte_toNat, generation_toNat]
  -- the word is the sum of its four fields, the third of which is zero
  omega

theorem WellFormed.encode (fd : Fd) (opType : OpType) (generation : UInt16) :
    WellFormed (encodeUserData fd opType generation) where
  reserved := by
    have hf := fd.toUInt32.toNat_lt
    have ho := opType.code.toNat_lt
    apply UInt64.toNat_inj.mp
    rw [reserved_toNat, encodeUserData_toNat]
    show _ = 0
    omega
  operation := by
    have hf := fd.toUInt32.toNat_lt
    have ho := opType.code.toNat_lt
    refine ⟨opType, UInt8.toNat_inj.mp ?_⟩
    rw [opByte_toNat, encodeUserData_toNat]
    omega

end UserData

end Uringcore
