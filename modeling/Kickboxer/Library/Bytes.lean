import Mathlib

/-! Byte streams, and the words, flags and counted lists written on them.

A `Decoder` reads a value off the front of a stream and hands back the rest, or
stops with an error, as a buffered reader is read. `Reads dec bytes a` says
that `dec` reads `a` off `bytes`, whatever follows them. It composes along
`bind` (`Reads.bind`), so a decoder written as a sequence of reads reads back
the concatenation of what the matching writes produced; `reads_many` and
`reads_counted` carry it over lists.

Words are little-endian `uint32`s, as Go's `encoding/binary` writes them, and
flags are bytes read back as "not zero". Under the round trip of a word lies
bit arithmetic: cutting a word into bytes and or-ing them back in place gives
the word (`uint32Of_putUint32`, `uint64_of_bytes`), one byte lane at a time
(`high_lane`, `low_lane`). Going the other way, bytes or-ed into a word, the
first the most significant (`orBE`), or in the number they write (`toNat_orBE`),
and that number cut back into bytes gives them back (`beBytes_beNat`). -/
namespace Kickboxer.Library

/-! ### Byte lanes -/

section Lanes
variable {w : Nat}

theorem getLsbD_255 (j : Nat) : (255#w).getLsbD j = (decide (j < w) && decide (j < 8)) := by
  have h : (255 : Nat) = 2 ^ 8 - 1 := rfl
  rw [BitVec.getLsbD_ofNat, h, Nat.testBit_two_pow_sub_one]

theorem getLsbD_mask (s j : Nat) :
    (BitVec.ofNat w (2 ^ s - 1)).getLsbD j = (decide (j < w) && decide (j < s)) := by
  rw [BitVec.getLsbD_ofNat, Nat.testBit_two_pow_sub_one]

/-- The byte at bit `s` put back under the bits above it. -/
theorem high_lane (x : BitVec w) (s t : Nat) (h : t = s + 8) :
    ((x >>> t) <<< t) ||| (((x >>> s) &&& 255#w) <<< s) = (x >>> s) <<< s := by
  subst h
  apply BitVec.eq_of_getLsbD_eq
  intro i hi
  simp only [BitVec.getLsbD_or, BitVec.getLsbD_shiftLeft, BitVec.getLsbD_ushiftRight,
    BitVec.getLsbD_and, getLsbD_255]
  by_cases h1 : i < s
  · simp [h1, show i < s + 8 by omega]
  · by_cases h2 : i < s + 8
    · simp only [h1, h2, hi]
      simp
      intro _
      omega
    · rw [show s + 8 + (i - (s + 8)) = i by omega, show s + (i - s) = i by omega]
      simp [h1, h2, hi, show ¬i - s < 8 by omega]

/-- The byte at bit `s` put back over the bits below it. -/
theorem low_lane (x : BitVec w) (s t : Nat) (h : t = s + 8) :
    (x &&& BitVec.ofNat w (2 ^ s - 1)) ||| (((x >>> s) &&& 255#w) <<< s) =
      x &&& BitVec.ofNat w (2 ^ t - 1) := by
  subst h
  apply BitVec.eq_of_getLsbD_eq
  intro i hi
  simp only [BitVec.getLsbD_or, BitVec.getLsbD_shiftLeft, BitVec.getLsbD_ushiftRight,
    BitVec.getLsbD_and, getLsbD_255, getLsbD_mask]
  by_cases h1 : i < s
  · simp [h1, hi, show i < s + 8 by omega]
  · rw [show s + (i - s) = i by omega]
    by_cases h2 : i < s + 8
    · simp [h1, h2, hi, show i - s < 8 by omega, show i - s < w by omega]
    · simp [h1, h2, hi, show ¬i - s < 8 by omega]

end Lanes

/-! ### Words -/

/-- `binary.LittleEndian.PutUint32`: the low byte first. -/
def putUint32 (x : UInt32) : List UInt8 :=
  [x.toUInt8, (x >>> 8).toUInt8, (x >>> 16).toUInt8, (x >>> 24).toUInt8]

/-- `binary.LittleEndian.Uint32`. -/
def uint32Of (b0 b1 b2 b3 : UInt8) : UInt32 :=
  b0.toUInt32 ||| b1.toUInt32 <<< 8 ||| b2.toUInt32 <<< 16 ||| b3.toUInt32 <<< 24

theorem toUInt8_toUInt32 (x : UInt32) : x.toUInt8.toUInt32 = x &&& 255 := by
  apply UInt32.toNat_inj.mp
  have h255 : UInt32.toNat 255 = 2 ^ 8 - 1 := rfl
  simp only [UInt32.toNat_toUInt8, UInt8.toNat_toUInt32, UInt32.toNat_and, h255,
    Nat.and_two_pow_sub_one_eq_mod]

theorem toUInt8_toUInt64 (x : UInt64) : x.toUInt8.toUInt64 = x &&& 255 := by
  apply UInt64.toNat_inj.mp
  have h255 : UInt64.toNat 255 = 2 ^ 8 - 1 := rfl
  simp only [UInt64.toNat_toUInt8, UInt8.toNat_toUInt64, UInt64.toNat_and, h255,
    Nat.and_two_pow_sub_one_eq_mod]

theorem uint32Of_putUint32 (x : UInt32) :
    uint32Of x.toUInt8 (x >>> 8).toUInt8 (x >>> 16).toUInt8 (x >>> 24).toUInt8 = x := by
  apply UInt32.toBitVec_inj.mp
  simp only [uint32Of, toUInt8_toUInt32, UInt32.toBitVec_or, UInt32.toBitVec_shiftLeft,
    UInt32.toBitVec_shiftRight, UInt32.toBitVec_and, UInt32.toBitVec_ofNat, BitVec.shiftLeft_eq',
    BitVec.ushiftRight_eq', BitVec.toNat_umod, BitVec.toNat_ofNat, Nat.reducePow, Nat.reduceMod,
    show BitVec.toNat (32 : BitVec 32) = 32 from rfl]
  have h0 : x.toBitVec &&& 255#32 = x.toBitVec &&& BitVec.ofNat 32 (2 ^ 8 - 1) := rfl
  rw [h0, low_lane _ 8 16 rfl, low_lane _ 16 24 rfl, low_lane _ 24 32 rfl]
  have hall : BitVec.ofNat 32 (2 ^ 32 - 1) = BitVec.allOnes 32 := rfl
  rw [hall, BitVec.and_allOnes]

/-- The eight bytes of `x`, the high one first, or-ed back into place. -/
def orBytes64 (x : UInt64) : UInt64 :=
  (0 : UInt64) ||| ((x >>> 56) &&& 0xff).toUInt8.toUInt64 <<< 56 |||
    ((x >>> 48) &&& 0xff).toUInt8.toUInt64 <<< 48 ||| ((x >>> 40) &&& 0xff).toUInt8.toUInt64 <<< 40 |||
    ((x >>> 32) &&& 0xff).toUInt8.toUInt64 <<< 32 ||| ((x >>> 24) &&& 0xff).toUInt8.toUInt64 <<< 24 |||
    ((x >>> 16) &&& 0xff).toUInt8.toUInt64 <<< 16 ||| ((x >>> 8) &&& 0xff).toUInt8.toUInt64 <<< 8 |||
    ((x >>> 0) &&& 0xff).toUInt8.toUInt64 <<< 0

theorem uint64_of_bytes (x : UInt64) : orBytes64 x = x := by
  apply UInt64.toBitVec_inj.mp
  have hand : ∀ y : UInt64, (y &&& 0xff).toUInt8.toUInt64 = y &&& 255 := fun y => by
    rw [toUInt8_toUInt64, UInt64.and_assoc]
    rfl
  simp only [orBytes64, hand, UInt64.toBitVec_or, UInt64.toBitVec_shiftLeft,
    UInt64.toBitVec_shiftRight, UInt64.toBitVec_and, UInt64.toBitVec_ofNat, BitVec.shiftLeft_eq',
    BitVec.ushiftRight_eq', BitVec.toNat_umod, BitVec.toNat_ofNat, Nat.reducePow, Nat.reduceMod,
    show BitVec.toNat (64 : BitVec 64) = 64 from rfl]
  have h0 : (0#64 : BitVec 64) = x.toBitVec >>> 64 <<< 64 := by simp
  rw [h0, high_lane _ 56 64 rfl, high_lane _ 48 56 rfl, high_lane _ 40 48 rfl,
    high_lane _ 32 40 rfl, high_lane _ 24 32 rfl, high_lane _ 16 24 rfl, high_lane _ 8 16 rfl,
    high_lane _ 0 8 rfl]
  simp

/-! ### Readers -/

/-- A reader of a byte stream: the value read and the rest of the stream, or
the error that stopped it. -/
def Decoder (α : Type) : Type := List UInt8 → Except String (α × List UInt8)

namespace Decoder
variable {α β : Type}

protected def pure (a : α) : Decoder α := fun bs => .ok (a, bs)

protected def bind (x : Decoder α) (f : α → Decoder β) : Decoder β := fun bs =>
  match x bs with
  | .ok (a, rest) => f a rest
  | .error e => .error e

instance : Monad Decoder where
  pure := Decoder.pure
  bind := Decoder.bind

/-- Stop with the error `e`. -/
def fail (e : String) : Decoder α := fun _ => .error e

end Decoder

section Reads
variable {α β γ : Type}

/-- `dec` reads `a` off the front of `bytes`, whatever follows them. -/
def Reads (dec : Decoder α) (bytes : List UInt8) (a : α) : Prop :=
  ∀ rest, dec (bytes ++ rest) = .ok (a, rest)

theorem reads_pure (a : α) : Reads (pure a : Decoder α) [] a := fun _ => rfl

theorem Reads.bind {x : Decoder α} {f : α → Decoder β} {bs bs' : List UInt8} {a : α} {b : β}
    (hx : Reads x bs a) (hf : Reads (f a) bs' b) : Reads (x >>= f) (bs ++ bs') b := by
  intro rest
  show Decoder.bind x f (bs ++ bs' ++ rest) = _
  rw [List.append_assoc]
  simp only [Decoder.bind, hx (bs' ++ rest)]
  exact hf rest

theorem Decoder.bind_of_ok {x : Decoder α} {bs rest : List UInt8} {a : α}
    (h : x bs = .ok (a, rest)) (f : α → Decoder β) : (x >>= f) bs = f a rest := by
  show Decoder.bind x f bs = _
  simp only [Decoder.bind, h]

/-- Past the bytes `x` reads, `x >>= f` goes on with the rest. -/
theorem Reads.bind_apply {x : Decoder α} {bs : List UInt8} {a : α} (hx : Reads x bs a)
    (f : α → Decoder β) (rest : List UInt8) : (x >>= f) (bs ++ rest) = f a rest :=
  Decoder.bind_of_ok (hx rest) f

/-- On exactly the bytes `x` reads, `x >>= f` goes on with nothing left. -/
theorem Reads.bind_eq {x : Decoder α} {bs : List UInt8} {a : α} (hx : Reads x bs a)
    (f : α → Decoder β) : (x >>= f) bs = f a [] := by
  have h := hx []
  rw [List.append_nil] at h
  show Decoder.bind x f bs = _
  simp only [Decoder.bind, h]

/-- `x`, then `f` of what it read; a failed `x` ends the reader with `stop`
and no error, the stream's state lost. -/
def Decoder.bindOr (x : Decoder α) (stop : β) (f : α → Decoder β) : Decoder β := fun bs =>
  match x bs with
  | .ok (a, rest) => f a rest
  | .error _ => .ok (stop, [])

theorem Reads.bindOr {x : Decoder α} {f : α → Decoder β} {bs bs' : List UInt8} {a : α} {b : β}
    (stop : β) (hx : Reads x bs a) (hf : Reads (f a) bs' b) :
    Reads (x.bindOr stop f) (bs ++ bs') b := by
  intro rest
  rw [List.append_assoc]
  simp only [Decoder.bindOr, hx (bs' ++ rest)]
  exact hf rest

theorem Reads.of_eq {dec : Decoder α} {bs bs' : List UInt8} {a : α} (h : bs = bs')
    (hr : Reads dec bs a) : Reads dec bs' a :=
  h ▸ hr

/-- `dec` stops with the error `e` on `bytes`, whatever follows them. -/
def Fails (dec : Decoder α) (bytes : List UInt8) (e : String) : Prop :=
  ∀ rest, dec (bytes ++ rest) = .error e

theorem fails_fail (e : String) : Fails (Decoder.fail e : Decoder α) [] e := fun _ => rfl

/-- A read that succeeds, then one that stops, stops. -/
theorem Reads.bind_fails {x : Decoder α} {f : α → Decoder β} {bs bs' : List UInt8} {a : α} {e : String}
    (hx : Reads x bs a) (hf : Fails (f a) bs' e) : Fails (x >>= f) (bs ++ bs') e := by
  intro rest
  rw [List.append_assoc]
  show Decoder.bind x f (bs ++ (bs' ++ rest)) = _
  simp only [Decoder.bind, hx (bs' ++ rest)]
  exact hf rest

theorem Fails.bind {x : Decoder α} {f : α → Decoder β} {bs : List UInt8} {e : String}
    (hx : Fails x bs e) : Fails (x >>= f) bs e := by
  intro rest
  show Decoder.bind x f (bs ++ rest) = _
  simp only [Decoder.bind, hx rest]

theorem Fails.of_eq {dec : Decoder α} {bs bs' : List UInt8} {e : String} (h : bs = bs')
    (hf : Fails dec bs e) : Fails dec bs' e :=
  h ▸ hf

/-- Reading, then handing back what was read, reads the same bytes. -/
theorem Reads.map {x : Decoder α} {bs : List UInt8} {a : α} (f : α → β) (hx : Reads x bs a) :
    Reads (x >>= fun a => pure (f a)) bs (f a) :=
  (hx.bind (reads_pure (f a))).of_eq (List.append_nil bs)

/-! ### Cut streams

A stream can end before a value is complete. A reader *refuses the cuts* of
some bytes when it stops with an error on every strict prefix of them, and
*stops on the cuts* when it ends there without an error. Refusal composes along
`bind` as `Reads` does (`RefusesCuts.bind`); a reader built with `bindOr` stops
on the cuts of fields it would refuse (`StopsOnCuts.bindOr`). -/

/-- `dec` stops with an error on every strict prefix of `bytes`. -/
def RefusesCuts (dec : Decoder α) (bytes : List UInt8) : Prop :=
  ∀ j < bytes.length, ∃ e, dec (bytes.take j) = .error e

/-- `dec` ends without an error, and with nothing left, on every strict prefix
of `bytes`. -/
def StopsOnCuts (dec : Decoder α) (bytes : List UInt8) : Prop :=
  ∀ j < bytes.length, ∃ a, dec (bytes.take j) = .ok (a, [])

theorem refusesCuts_nil (dec : Decoder α) : RefusesCuts dec [] := fun j hj =>
  absurd hj (Nat.not_lt_zero j)

theorem stopsOnCuts_nil (dec : Decoder α) : StopsOnCuts dec [] := fun j hj =>
  absurd hj (Nat.not_lt_zero j)

theorem RefusesCuts.of_eq {dec : Decoder α} {bs bs' : List UInt8} (h : bs = bs')
    (hr : RefusesCuts dec bs) : RefusesCuts dec bs' :=
  h ▸ hr

theorem Decoder.bind_of_error {x : Decoder α} {bs : List UInt8} {e : String}
    (h : x bs = .error e) (f : α → Decoder β) : (x >>= f) bs = .error e := by
  show Decoder.bind x f bs = _
  simp only [Decoder.bind, h]

/-- A cut of `bs ++ bs'` is a cut of `bs`, or `bs` followed by a cut of `bs'`. -/
theorem take_append_cases {bs bs' : List UInt8} {j : Nat} (hj : j < (bs ++ bs').length) :
    (j < bs.length ∧ (bs ++ bs').take j = bs.take j) ∨
      (bs.length ≤ j ∧ j - bs.length < bs'.length ∧
        (bs ++ bs').take j = bs ++ bs'.take (j - bs.length)) := by
  rw [List.length_append] at hj
  by_cases hjb : j < bs.length
  · exact .inl ⟨hjb, List.take_append_of_le_length (by omega)⟩
  · refine .inr ⟨by omega, by omega, ?_⟩
    rw [List.take_append, List.take_of_length_le (by omega)]

theorem RefusesCuts.bind {x : Decoder α} {f : α → Decoder β} {bs bs' : List UInt8} {a : α}
    (hx : Reads x bs a) (hcx : RefusesCuts x bs) (hcf : RefusesCuts (f a) bs') :
    RefusesCuts (x >>= f) (bs ++ bs') := by
  intro j hj
  rcases take_append_cases hj with ⟨hjb, hcut⟩ | ⟨-, hjb, hcut⟩
  · -- the cut falls inside what `x` reads
    obtain ⟨e, he⟩ := hcx j hjb
    exact ⟨e, by rw [hcut, Decoder.bind_of_error he]⟩
  · obtain ⟨e, he⟩ := hcf _ hjb
    exact ⟨e, by rw [hcut, hx.bind_apply f, he]⟩

theorem RefusesCuts.map {x : Decoder α} {bs : List UInt8} {a : α} (f : α → β) (hx : Reads x bs a)
    (hcx : RefusesCuts x bs) : RefusesCuts (x >>= fun a => pure (f a)) bs :=
  (RefusesCuts.bind hx hcx (refusesCuts_nil _)).of_eq (List.append_nil bs)

/-- A field that `x` refuses to read from a cut ends a `bindOr` reader there. -/
theorem StopsOnCuts.bindOr {x : Decoder α} {f : α → Decoder β} {bs bs' : List UInt8} {a : α}
    (stop : β) (hx : Reads x bs a) (hcx : RefusesCuts x bs) (hcf : StopsOnCuts (f a) bs') :
    StopsOnCuts (x.bindOr stop f) (bs ++ bs') := by
  intro j hj
  rcases take_append_cases hj with ⟨hjb, hcut⟩ | ⟨-, hjb, hcut⟩
  · obtain ⟨e, he⟩ := hcx j hjb
    refine ⟨stop, ?_⟩
    rw [hcut]
    simp only [Decoder.bindOr, he]
  · obtain ⟨b, hb⟩ := hcf _ hjb
    refine ⟨b, ?_⟩
    rw [hcut]
    simp only [Decoder.bindOr, hx (bs'.take (j - bs.length))]
    exact hb

end Reads

/-- One byte. -/
def readByte : Decoder UInt8
  | b :: rest => .ok (b, rest)
  | [] => .error "EOF"

/-- `n` bytes, as `io.ReadFull` reads them for `binary.Read`. -/
def readFull (n : Nat) : Decoder (List UInt8) := fun bs =>
  if n ≤ bs.length then .ok (bs.take n, bs.drop n)
  else if bs = [] then .error "EOF" else .error "unexpected EOF"

/-- `binary.Read` of a little-endian `uint32`. -/
def readUint32 : Decoder UInt32 := do
  match ← readFull 4 with
  | [b0, b1, b2, b3] => pure (uint32Of b0 b1 b2 b3)
  | _ => Decoder.fail "unexpected EOF"

/-- A flag as one byte, `0xff` for true. -/
def flagByte (b : Bool) : UInt8 := if b then 0xff else 0

/-- A flag byte read back: anything but `0` is true. -/
def readFlag : Decoder Bool := do
  let b ← readByte
  pure (b != 0)

/-- `n` values, one after the other. -/
def readMany {α : Type} (dec : Decoder α) : Nat → Decoder (List α)
  | 0 => pure []
  | n + 1 => do
    let a ← dec
    let as ← readMany dec n
    pure (a :: as)

/-- A count as a little-endian `uint32`, then that many values. -/
def readCounted {α : Type} (dec : Decoder α) : Decoder (List α) := do
  let n ← readUint32
  readMany dec n.toNat

theorem reads_byte (b : UInt8) : Reads readByte [b] b := fun _ => rfl

theorem reads_full (bs : List UInt8) : Reads (readFull bs.length) bs bs := by
  intro rest
  simp [readFull]

theorem reads_uint32 (x : UInt32) : Reads readUint32 (putUint32 x) x := by
  have hword : Reads (pure (uint32Of x.toUInt8 (x >>> 8).toUInt8 (x >>> 16).toUInt8 (x >>> 24).toUInt8) :
      Decoder UInt32) [] x := by
    rw [uint32Of_putUint32]
    exact reads_pure x
  exact ((reads_full (putUint32 x)).bind hword).of_eq (List.append_nil _)

theorem refusesCuts_full (bs : List UInt8) : RefusesCuts (readFull bs.length) bs := by
  intro j hj
  have hlen : (bs.take j).length < bs.length := by
    rw [List.length_take_of_le (by omega)]
    exact hj
  unfold readFull
  rw [if_neg (by omega)]
  split <;> exact ⟨_, rfl⟩

theorem refusesCuts_uint32 (x : UInt32) : RefusesCuts readUint32 (putUint32 x) :=
  (RefusesCuts.bind (reads_full (putUint32 x)) (refusesCuts_full _) (refusesCuts_nil _)).of_eq
    (List.append_nil _)

theorem reads_flag (b : Bool) : Reads readFlag [flagByte b] b := by
  have h : Reads readFlag [flagByte b] (flagByte b != 0) := (reads_byte _).map _
  cases b <;> exact h

section Lists
variable {α β : Type} {dec : Decoder α} {enc : β → List UInt8} {g : β → α}

theorem reads_many (l : List β) (h : ∀ b ∈ l, Reads dec (enc b) (g b)) :
    Reads (readMany dec l.length) (l.flatMap enc) (l.map g) := by
  induction l with
  | nil => exact reads_pure []
  | cons b l ih =>
    have hb := h b List.mem_cons_self
    have hl := ih fun b' hb' => h b' (List.mem_cons_of_mem b hb')
    have hcons : Reads (dec >>= fun a => readMany dec l.length >>= fun as => pure (a :: as))
        (enc b ++ l.flatMap enc) (g b :: l.map g) := hb.bind (hl.map (g b :: ·))
    exact hcons

/-- The count in front of a list. -/
def putCount (n : Nat) : List UInt8 := putUint32 n.toUInt32

theorem toNat_toUInt32 {n : Nat} (h : n < 2 ^ 32) : n.toUInt32.toNat = n := by
  rw [Nat.toUInt32_eq, UInt32.toNat_ofNat_of_lt' h]

@[simp] theorem length_putCount (n : Nat) : (putCount n).length = 4 := rfl

theorem reads_counted (l : List β) (hl : l.length < 2 ^ 32) (h : ∀ b ∈ l, Reads dec (enc b) (g b)) :
    Reads (readCounted dec) (putCount l.length ++ l.flatMap enc) (l.map g) := by
  have hmany := reads_many l h
  rw [← toNat_toUInt32 hl] at hmany
  exact (reads_uint32 _).bind hmany

/-- A counted list of values each read back as itself reads back as itself. -/
theorem reads_counted_self (l : List α) (hl : l.length < 2 ^ 32) {enc : α → List UInt8}
    (h : ∀ b ∈ l, Reads dec (enc b) b) :
    Reads (readCounted dec) (putCount l.length ++ l.flatMap enc) l := by
  have hmap : Reads (readCounted dec) (putCount l.length ++ l.flatMap enc) (l.map fun b => b) :=
    reads_counted l hl h
  rwa [List.map_id'] at hmap

/-- The count as a `uint32`, then the values of a loop that runs to that count:
a list longer than a `uint32` counts loses its tail. -/
def putCountLoop (enc : β → List UInt8) (l : List β) : List UInt8 :=
  putUint32 l.length.toUInt32 ++ (l.take l.length.toUInt32.toNat).flatMap enc

theorem putCountLoop_eq (l : List β) (hl : l.length < 2 ^ 32) :
    putCountLoop enc l = putCount l.length ++ l.flatMap enc := by
  rw [putCountLoop, toNat_toUInt32 hl, List.take_length]
  rfl

theorem reads_countLoop (l : List α) (hl : l.length < 2 ^ 32) {enc : α → List UInt8}
    (h : ∀ b ∈ l, Reads dec (enc b) b) : Reads (readCounted dec) (putCountLoop enc l) l := by
  rw [putCountLoop_eq l hl]
  exact reads_counted_self l hl h

theorem length_putCountLoop (l : List β) (hl : l.length < 2 ^ 32) :
    (putCountLoop enc l).length = 4 + (l.map fun b => (enc b).length).sum := by
  rw [putCountLoop_eq l hl, List.length_append, length_putCount, List.length_flatMap]

end Lists

/-! ### Big-endian numbers -/

section BigEndian

/-- The `k` low bytes of `x`, the most significant first. -/
def beBytes : Nat → Nat → List UInt8
  | 0, _ => []
  | k + 1, x => beBytes k (x / 256) ++ [(x % 256).toUInt8]

/-- The number the bytes write, the first the most significant. -/
def beNat (bs : List UInt8) : Nat := bs.foldl (fun acc b => acc * 256 + b.toNat) 0

@[simp] theorem length_beBytes (k x : Nat) : (beBytes k x).length = k := by
  induction k generalizing x with
  | zero => rfl
  | succ k ih => simp [beBytes, ih]

theorem beNat_append_byte (bs : List UInt8) (b : UInt8) : beNat (bs ++ [b]) = beNat bs * 256 + b.toNat := by
  simp [beNat, List.foldl_append]

theorem beNat_beBytes (k x : Nat) : beNat (beBytes k x) = x % 256 ^ k := by
  induction k generalizing x with
  | zero => simp [beBytes, beNat, Nat.mod_one]
  | succ k ih =>
    rw [beBytes, beNat_append_byte, ih, Nat.pow_succ', Nat.mod_mul, UInt8.toNat_ofNat']
    simp only [Nat.reducePow, Nat.mod_mod]
    omega

theorem foldl_beNat (c : Nat) (l : List UInt8) :
    l.foldl (fun acc b => acc * 256 + b.toNat) c = c * 256 ^ l.length + beNat l := by
  induction l generalizing c with
  | nil => simp [beNat]
  | cons a l ih =>
    have ha : beNat (a :: l) = (0 * 256 + a.toNat) * 256 ^ l.length + beNat l := ih _
    rw [List.foldl_cons, ih, ha, List.length_cons]
    ring

theorem beNat_cons (a : UInt8) (l : List UInt8) :
    beNat (a :: l) = a.toNat * 256 ^ l.length + beNat l := by
  rw [beNat, List.foldl_cons, foldl_beNat, Nat.zero_mul, Nat.zero_add]

theorem beNat_lt (l : List UInt8) : beNat l < 256 ^ l.length := by
  induction l with
  | nil => simp [beNat]
  | cons a l ih =>
    have ha : a.toNat + 1 ≤ 256 := a.toNat_lt
    calc beNat (a :: l) = a.toNat * 256 ^ l.length + beNat l := beNat_cons a l
      _ < a.toNat * 256 ^ l.length + 256 ^ l.length := Nat.add_lt_add_left ih _
      _ = (a.toNat + 1) * 256 ^ l.length := by ring
      _ ≤ 256 * 256 ^ l.length := Nat.mul_le_mul_right _ ha
      _ = 256 ^ (a :: l).length := by rw [List.length_cons, pow_succ']

/-- The bytes back from the number they write. -/
theorem beBytes_beNat (l : List UInt8) : beBytes l.length (beNat l) = l := by
  induction l using List.reverseRecOn with
  | nil => rfl
  | append_singleton l b ih =>
    have hb : b.toNat < 256 := b.toNat_lt
    rw [List.length_append, List.length_singleton, beBytes, beNat_append_byte,
      show (beNat l * 256 + b.toNat) / 256 = beNat l by omega,
      show (beNat l * 256 + b.toNat) % 256 = b.toNat by omega, ih]
    simp

theorem getElem_beBytes {k x i : Nat} (h : i < (beBytes k x).length) :
    (beBytes k x)[i] = (x / 256 ^ (k - 1 - i) % 256).toUInt8 := by
  induction k generalizing x i with
  | zero => simp at h
  | succ k ih =>
    simp only [beBytes]
    rw [List.getElem_append]
    by_cases hi : i < k
    · rw [dif_pos (by simpa using hi), ih, Nat.div_div_eq_div_mul, ← pow_succ',
        show k - 1 - i + 1 = k + 1 - 1 - i by omega]
    · have hik : i = k := by simp at h; omega
      subst hik
      simp

/-- The bytes or-ed into `x`, the first the most significant: each byte is
shifted past the bytes after it. -/
def orBE : UInt64 → List UInt8 → UInt64
  | x, [] => x
  | x, a :: l => orBE (x ||| a.toUInt64 <<< (l.length * 8).toUInt64) l

/-- A shift amount below the width, as a `UInt64` shift reads it. -/
theorem toNat_toUInt64_mod {s : Nat} (hs : s < 64) : s.toUInt64.toNat % 64 = s := by
  rw [Nat.toUInt64_eq, UInt64.toNat_ofNat']
  omega

/-- A byte shifted into a word that holds it. -/
theorem toNat_shifted_byte (a : UInt8) {s : Nat} (hs : s + 8 ≤ 64) :
    (a.toUInt64 <<< s.toUInt64).toNat = 2 ^ s * a.toNat := by
  have ha : a.toNat < 2 ^ 8 := a.toNat_lt
  have hlt : 2 ^ s * a.toNat < 2 ^ 64 :=
    calc 2 ^ s * a.toNat < 2 ^ s * 2 ^ 8 := Nat.mul_lt_mul_of_pos_left ha (by positivity)
      _ = 2 ^ (s + 8) := (pow_add 2 s 8).symm
      _ ≤ 2 ^ 64 := Nat.pow_le_pow_right (by norm_num) hs
  have hs' := toNat_toUInt64_mod (by omega : s < 64)
  rw [UInt64.toNat_shiftLeft, UInt8.toNat_toUInt64, hs', Nat.shiftLeft_eq, Nat.mul_comm,
    Nat.mod_eq_of_lt hlt]

/-- The byte at bit `s` of a word. -/
theorem toUInt8_shiftRight (x : UInt64) {s : Nat} (hs : s < 64) :
    ((x >>> s.toUInt64) &&& 0xff).toUInt8 = (x.toNat / 2 ^ s % 256).toUInt8 := by
  apply UInt8.toNat_inj.mp
  have hs' := toNat_toUInt64_mod (by omega : s < 64)
  have h255 : UInt64.toNat 255 = 2 ^ 8 - 1 := rfl
  simp only [UInt64.toNat_toUInt8, UInt64.toNat_and, UInt64.toNat_shiftRight, hs', h255,
    Nat.shiftRight_eq_div_pow, Nat.and_two_pow_sub_one_eq_mod, Nat.toUInt8_eq, UInt8.toNat_ofNat',
    Nat.mod_mod]

/-- Or-ing at most eight bytes into a word ors in the number they write. -/
theorem toNat_orBE (x : UInt64) (l : List UInt8) (hl : l.length ≤ 8) :
    (orBE x l).toNat = x.toNat ||| beNat l := by
  induction l generalizing x with
  | nil => simp [orBE, beNat]
  | cons a l ih =>
    have hl' : l.length + 1 ≤ 8 := by simpa using hl
    have hpow : 256 ^ l.length = 2 ^ (l.length * 8) := by rw [pow_mul']; norm_num
    -- the new byte sits above every bit of the bytes after it
    have hlow : beNat l < 2 ^ (l.length * 8) := hpow ▸ beNat_lt l
    rw [orBE, ih _ (by omega), UInt64.toNat_or, toNat_shifted_byte a (by omega), Nat.or_assoc,
      beNat_cons, hpow, Nat.mul_comm a.toNat, Nat.two_pow_add_eq_or_of_lt hlow]

theorem orBE_eq_or (x : UInt64) (l : List UInt8) (hl : l.length ≤ 8) : orBE x l = x ||| orBE 0 l := by
  apply UInt64.toNat_inj.mp
  rw [UInt64.toNat_or, toNat_orBE x l hl, toNat_orBE 0 l hl, UInt64.toNat_zero, Nat.zero_or]

end BigEndian

end Kickboxer.Library
