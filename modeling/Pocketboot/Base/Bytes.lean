import Pocketboot.Base.Outcome

/-!
# Byte strings

Big- and little-endian numerals over byte strings, slices, and in-place
replacement of a range.  Both numeral systems are inverse to their decoders
on strings of the same width.
-/

namespace Pocketboot

/-- A byte string. -/
abbrev Bytes : Type := List UInt8

namespace Bytes

/-- The number a big-endian string denotes. -/
def ofBe : Bytes → Nat
  | [] => 0
  | byte :: rest => byte.toNat * 256 ^ rest.length + ofBe rest

/-- The `width` low bytes of a number, most significant first. -/
def toBe : Nat → Nat → Bytes
  | 0, _ => []
  | width + 1, value => UInt8.ofNat (value / 256 ^ width) :: toBe width value

/-- The number a little-endian string denotes. -/
def ofLe : Bytes → Nat
  | [] => 0
  | byte :: rest => byte.toNat + 256 * ofLe rest

/-- The `width` low bytes of a number, least significant first. -/
def toLe : Nat → Nat → Bytes
  | 0, _ => []
  | width + 1, value => UInt8.ofNat value :: toLe width (value / 256)

/-- The bytes at the positions from `start` up to `stop`. -/
def slice (data : Bytes) (start stop : Nat) : Bytes :=
  (data.drop start).take (stop - start)

/-- Replace the bytes from `start` on by those of `patch`. -/
def splice (data : Bytes) (start : Nat) (patch : Bytes) : Bytes :=
  data.take start ++ patch ++ data.drop (start + patch.length)

@[simp] theorem toBe_length (width value : Nat) :
    (toBe width value).length = width := by
  induction width with
  | zero => rfl
  | succ width induction => simp [toBe, induction]

@[simp] theorem toLe_length (width value : Nat) :
    (toLe width value).length = width := by
  induction width generalizing value with
  | zero => rfl
  | succ width induction => simp [toLe, induction]

theorem ofBe_lt (data : Bytes) : ofBe data < 256 ^ data.length := by
  induction data with
  | nil => simp [ofBe]
  | cons byte rest induction =>
      have byteBound : byte.toNat ≤ 255 := by
        have := byte.toNat_lt
        omega
      have product : byte.toNat * 256 ^ rest.length ≤ 255 * 256 ^ rest.length :=
        Nat.mul_le_mul_right _ byteBound
      simp only [ofBe, List.length_cons, pow_succ]
      omega

theorem ofLe_lt (data : Bytes) : ofLe data < 256 ^ data.length := by
  induction data with
  | nil => simp [ofLe]
  | cons byte rest induction =>
      have byteBound := byte.toNat_lt
      simp only [ofLe, List.length_cons, pow_succ]
      omega

@[simp] theorem ofBe_toBe (width value : Nat) :
    ofBe (toBe width value) = value % 256 ^ width := by
  induction width with
  | zero => simp [toBe, ofBe, Nat.mod_one]
  | succ width induction =>
      have split : value % (256 ^ width * 256) =
          value % 256 ^ width + 256 ^ width * (value / 256 ^ width % 256) :=
        Nat.mod_mul
      simp only [toBe, ofBe, toBe_length, induction, UInt8.toNat_ofNat',
        pow_succ, split]
      exact (Nat.add_comm _ _).trans (congrArg _ (Nat.mul_comm _ _))

theorem ofBe_toBe_of_lt {width value : Nat} (bound : value < 256 ^ width) :
    ofBe (toBe width value) = value := by
  rw [ofBe_toBe, Nat.mod_eq_of_lt bound]

@[simp] theorem ofLe_toLe (width value : Nat) :
    ofLe (toLe width value) = value % 256 ^ width := by
  induction width generalizing value with
  | zero => simp [toLe, ofLe, Nat.mod_one]
  | succ width induction =>
      have split : value % (256 * 256 ^ width) =
          value % 256 + 256 * (value / 256 % 256 ^ width) :=
        Nat.mod_mul
      simp [toLe, ofLe, induction, pow_succ, Nat.mul_comm (256 ^ width), split]

theorem ofLe_toLe_of_lt {width value : Nat} (bound : value < 256 ^ width) :
    ofLe (toLe width value) = value := by
  rw [ofLe_toLe, Nat.mod_eq_of_lt bound]

theorem ofBe_append (front back : Bytes) :
    ofBe (front ++ back) =
      ofBe front * 256 ^ back.length + ofBe back := by
  induction front with
  | nil => simp [ofBe]
  | cons byte rest induction =>
      rw [List.cons_append, ofBe, ofBe, induction,
        List.length_append, pow_add]
      ring

private theorem toBe_add_mul (width value factor : Nat) :
    toBe width (factor * 256 ^ width + value) = toBe width value := by
  induction width generalizing factor with
  | zero => rfl
  | succ width induction =>
      have regroup : factor * 256 ^ (width + 1) + value =
          (factor * 256) * 256 ^ width + value := by
        rw [pow_succ]; ring
      have quotient : (factor * 256 * 256 ^ width + value) / 256 ^ width =
          factor * 256 + value / 256 ^ width := by
        rw [Nat.add_comm, Nat.add_mul_div_right _ _ (by positivity)]
        omega
      have low : UInt8.ofNat (factor * 256 + value / 256 ^ width) =
          UInt8.ofNat (value / 256 ^ width) := by
        apply UInt8.toNat_inj.mp
        simp
      rw [regroup]
      simp only [toBe]
      rw [quotient, low, induction]

@[simp] theorem toBe_ofBe (data : Bytes) :
    toBe data.length (ofBe data) = data := by
  induction data with
  | nil => rfl
  | cons byte rest induction =>
      have head : (byte.toNat * 256 ^ rest.length + ofBe rest) /
          256 ^ rest.length = byte.toNat := by
        rw [Nat.add_comm, Nat.add_mul_div_right _ _ (by positivity),
          Nat.div_eq_of_lt (ofBe_lt rest)]
        omega
      simp only [List.length_cons, toBe, ofBe]
      rw [head, toBe_add_mul, induction]
      simp

@[simp] theorem toLe_ofLe (data : Bytes) :
    toLe data.length (ofLe data) = data := by
  induction data with
  | nil => rfl
  | cons byte rest induction =>
      have byteBound := byte.toNat_lt
      have head : UInt8.ofNat (byte.toNat + 256 * ofLe rest) = byte := by
        apply UInt8.toNat_inj.mp
        simp
      have tail : (byte.toNat + 256 * ofLe rest) / 256 = ofLe rest := by
        omega
      simp only [List.length_cons, toLe, ofLe]
      rw [head, tail, induction]

theorem ofBe_inj {left right : Bytes} (lengths : left.length = right.length)
    (values : ofBe left = ofBe right) : left = right := by
  rw [← toBe_ofBe left, ← toBe_ofBe right, lengths, values]

theorem slice_length (data : Bytes) (start stop : Nat) :
    (slice data start stop).length = min (stop - start) (data.length - start) := by
  simp [slice]

theorem slice_length_of_le {data : Bytes} {start stop : Nat}
    (inside : stop ≤ data.length) :
    (slice data start stop).length = stop - start := by
  rw [slice_length]
  omega

theorem slice_append {front middle back : Bytes} {start stop : Nat}
    (starts : start = front.length) (stops : stop = start + middle.length) :
    slice (front ++ (middle ++ back)) start stop = middle := by
  subst starts stops
  rw [slice, Nat.add_sub_cancel_left, List.drop_left, List.take_left]

theorem drop_eq_slice_append (data : Bytes) {start stop : Nat}
    (ordered : start ≤ stop) :
    data.drop start = slice data start stop ++ data.drop stop := by
  have split : stop = start + (stop - start) := by omega
  conv_rhs => rw [split, ← List.drop_drop]
  rw [slice, ← split, List.take_append_drop]

theorem splice_length {data : Bytes} {start : Nat} {patch : Bytes}
    (inside : start + patch.length ≤ data.length) :
    (splice data start patch).length = data.length := by
  simp [splice]
  omega

theorem getElem?_slice (data : Bytes) (start stop index : Nat) :
    (slice data start stop)[index]? =
      if index < stop - start then data[start + index]? else none := by
  simp [slice, List.getElem?_take, List.getElem?_drop]

theorem getElem?_splice {data : Bytes} {start : Nat} {patch : Bytes}
    (inside : start + patch.length ≤ data.length) (index : Nat) :
    (splice data start patch)[index]? =
      if index < start then data[index]?
      else if index < start + patch.length then patch[index - start]?
      else data[index]? := by
  have startInside : start ≤ data.length := by omega
  unfold splice
  split
  · rename_i before
    rw [List.append_assoc, List.getElem?_append_left (by simp; omega)]
    simp [before]
  · rename_i notBefore
    split
    · rw [List.append_assoc, List.getElem?_append_right (by simp; omega),
        List.getElem?_append_left (by simp; omega)]
      simp [Nat.min_eq_left startInside]
    · rw [List.getElem?_append_right (by simp; omega), List.getElem?_drop]
      congr 1
      simp
      omega

theorem slice_splice_of_disjoint {data : Bytes} {start : Nat} {patch : Bytes}
    {lower upper : Nat} (inside : start + patch.length ≤ data.length)
    (apart : upper ≤ start ∨ start + patch.length ≤ lower) :
    slice (splice data start patch) lower upper = slice data lower upper := by
  apply List.ext_getElem?
  intro index
  rw [getElem?_slice, getElem?_slice, getElem?_splice inside]
  split
  · split
    · rfl
    · split
      · omega
      · rfl
  · rfl

theorem slice_splice_self {data : Bytes} {start : Nat} {patch : Bytes}
    (inside : start + patch.length ≤ data.length) :
    slice (splice data start patch) start (start + patch.length) = patch := by
  apply List.ext_getElem?
  intro index
  rw [getElem?_slice, getElem?_splice inside]
  split
  · simp only [show ¬start + index < start by omega, if_false]
    rw [if_pos (by omega)]
    congr 1
    omega
  · rw [List.getElem?_eq_none (by omega)]

theorem take_splice {data : Bytes} {start count : Nat} {patch : Bytes}
    (inside : start + patch.length ≤ count) (fits : count ≤ data.length) :
    (splice data start patch).take count =
      splice (data.take count) start patch := by
  apply List.ext_getElem?
  intro index
  rw [getElem?_splice (by simp; omega), List.getElem?_take,
    getElem?_splice (by omega), List.getElem?_take]
  split
  · rfl
  · rw [if_neg (by omega), if_neg (by omega)]

theorem splice_splice_self {data : Bytes} {start : Nat} {first second : Bytes}
    (lengths : first.length = second.length)
    (inside : start + first.length ≤ data.length) :
    splice (splice data start first) start second =
      splice data start second := by
  have insideSecond : start + second.length ≤ data.length := by omega
  apply List.ext_getElem?
  intro index
  rw [getElem?_splice (by rw [splice_length inside]; exact insideSecond),
    getElem?_splice insideSecond, getElem?_splice inside]
  split
  · rfl
  · split
    · rfl
    · rw [if_neg (by omega)]

theorem take_splice_of_le {data : Bytes} {start count : Nat} {patch : Bytes}
    (inside : start + patch.length ≤ data.length) (before : count ≤ start) :
    (splice data start patch).take count = data.take count := by
  have slices : slice (splice data start patch) 0 count =
      slice data 0 count := slice_splice_of_disjoint inside (.inl before)
  simpa [slice] using slices

end Bytes

end Pocketboot
