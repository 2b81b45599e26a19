import Mathlib.Data.Nat.ModEq
import Forte.Lib.BoundedQueue

/-!
# The ring buffer

`CRingBuffer`, a queue in an array whose size is a power of two. The places to read and to
write next are counted on in 64 bits and never reduced; the array is accessed at their last
bits. One place is always left free, so that of `size` elements the buffer holds at most
`size - 1` – and the element that was popped last stays where it is.

The buffer is a `Forte.BoundedQueue` of that capacity (`Forte.RingBuffer.refines`), also
when the counters wrap around, and a pointer returned by `pop` keeps its element until the
next `pop` or `clear`. What carries it is that all places from the one popped last to the
one written last are different modulo `size`.
-/

namespace Forte

/-- `CRingBuffer` of size `2 ^ k`. -/
structure RingBuffer (k : Fin 64) (α : Type) where
  /-- `mPopIndex`. -/
  popIndex : BitVec 64
  /-- `mPushIndex`. -/
  pushIndex : BitVec 64
  /-- `mData`, of which the first `2 ^ k` elements are used. -/
  data : ℕ → α

namespace RingBuffer

variable {k : Fin 64} {α : Type}

/-- The number of elements of the array. -/
def size (k : Fin 64) : ℕ := 2 ^ k.val

/-- `cmIndexMask`. -/
def indexMask (k : Fin 64) : BitVec 64 := BitVec.ofNat 64 (size k) - 1

/-- A buffer as it is created; the elements of the array are not used before they are
written. -/
def initial (elements : ℕ → α) : RingBuffer k α := ⟨0, 0, elements⟩

/-- `isEmpty`. -/
def isEmpty (b : RingBuffer k α) : Bool := b.popIndex = b.pushIndex

/-- `isFull`. -/
def isFull (b : RingBuffer k α) : Bool := b.pushIndex = b.popIndex + indexMask k

/-- The element of the array that an index stands for. -/
def slot (k : Fin 64) (index : BitVec 64) : ℕ := (index &&& indexMask k).toNat

/-- `push`. -/
def push (b : RingBuffer k α) (elem : α) : RingBuffer k α × Bool :=
  if b.isFull then (b, false)
  else
    ({ b with
        data := fun i => if i = slot k b.pushIndex then elem else b.data i
        pushIndex := b.pushIndex + 1 }, true)

/-- `pop`; the pointer it returns is the place in the array. -/
def pop (b : RingBuffer k α) : RingBuffer k α × Option ℕ :=
  if b.isEmpty then (b, none)
  else ({ b with popIndex := b.popIndex + 1 }, some (slot k b.popIndex))

/-- `clear`. -/
def clear (b : RingBuffer k α) : RingBuffer k α := { b with popIndex := 0, pushIndex := 0 }

/-- The number of elements in the buffer. -/
def count (b : RingBuffer k α) : ℕ := (b.pushIndex - b.popIndex).toNat

/-- The elements in the buffer, the one to be popped next first. -/
def contents (b : RingBuffer k α) : List α :=
  (List.range b.count).map fun i => b.data (slot k (b.popIndex + BitVec.ofNat 64 i))

/-- A buffer and the pointer that its user has from the last `pop`, as long as nothing has
been popped or cleared since. -/
def step (s : RingBuffer k α × Option ℕ) :
    QueueOp α → (RingBuffer k α × Option ℕ) × QueueAnswer α
  | .push x =>
    let (b, pushed) := s.1.push x
    ((b, s.2), .bool pushed)
  | .pop =>
    let (b, pointer) := s.1.pop
    ((b, pointer), .elem (pointer.map b.data))
  | .clear => ((s.1.clear, none), .done)
  | .isEmpty => (s, .bool s.1.isEmpty)
  | .isFull => (s, .bool s.1.isFull)
  | .last => (s, .elem (s.2.map s.1.data))

/-! ### Indices -/

theorem size_pos (k : Fin 64) : 0 < size k := Nat.two_pow_pos _

theorem size_dvd (k : Fin 64) : size k ∣ 2 ^ 64 := Nat.pow_dvd_pow 2 k.isLt.le

theorem size_le (k : Fin 64) : 2 * size k ≤ 2 ^ 64 := by
  have h : 2 ^ (k.val + 1) ≤ 2 ^ 64 := Nat.pow_le_pow_right (by decide) k.isLt
  rwa [Nat.pow_succ, Nat.mul_comm] at h

theorem indexMask_toNat (k : Fin 64) : (indexMask k).toNat = size k - 1 := by
  have hpos := size_pos k
  have hle := size_le k
  have hsize : size k % 2 ^ 64 = size k := Nat.mod_eq_of_lt (by omega)
  have hone : (1 : BitVec 64).toNat = 1 := rfl
  rw [indexMask, BitVec.toNat_sub, BitVec.toNat_ofNat, hsize, hone]
  omega

/-- Masking an index is taking it modulo the size. -/
theorem slot_eq (k : Fin 64) (index : BitVec 64) : slot k index = index.toNat % size k := by
  rw [slot, BitVec.toNat_and, indexMask_toNat, size, Nat.and_two_pow_sub_one_eq_mod]

/-- The place `n` elements after an index, whether or not the index wraps around. -/
theorem slot_add (k : Fin 64) (index : BitVec 64) (n : ℕ) :
    slot k (index + BitVec.ofNat 64 n) = (index.toNat + n) % size k := by
  rw [slot_eq, BitVec.toNat_add, BitVec.toNat_ofNat, Nat.add_mod_mod,
    Nat.mod_mod_of_dvd _ (size_dvd k)]

/-- Places less than `size` apart are different. -/
theorem mod_ne_of_lt {a m n size : ℕ} (hmn : m < n) (hn : n < m + size) :
    (a + m) % size ≠ (a + n) % size := by
  intro h
  have hmod : m ≡ n [MOD size] := Nat.ModEq.add_left_cancel' a h
  have hdvd : size ∣ n - m := (Nat.modEq_iff_dvd' hmn.le).mp hmod
  have := Nat.le_of_dvd (by omega) hdvd
  omega

/-! ### The queue in the buffer -/

/-- **The queue that a buffer stands for**, and the element that was popped last, which lies
one place before the ones to be popped. -/
structure Represents (s : RingBuffer k α × Option ℕ) (q : BoundedQueue α) : Prop where
  length : q.queue.length ≤ size k - 1
  pushIndex : s.1.pushIndex = s.1.popIndex + BitVec.ofNat 64 q.queue.length
  data : ∀ i (h : i < q.queue.length),
    s.1.data ((s.1.popIndex.toNat + i) % size k) = q.queue[i]
  taken : s.2 = none ∧ q.taken = none ∨
    s.2 = some ((s.1.popIndex.toNat + (size k - 1)) % size k) ∧
      q.taken = some (s.1.data ((s.1.popIndex.toNat + (size k - 1)) % size k))

section

variable {s : RingBuffer k α × Option ℕ} {q : BoundedQueue α}

/-- Two distances from the same index are equal indices only if they are equal. -/
theorem add_ofNat_inj {index : BitVec 64} {m n : ℕ} (hm : m < size k) (hn : n < size k)
    (h : index + BitVec.ofNat 64 m = index + BitVec.ofNat 64 n) : m = n := by
  have hle := size_le k
  have heq := congrArg BitVec.toNat ((BitVec.add_right_inj index).mp h)
  rwa [BitVec.toNat_ofNat, BitVec.toNat_ofNat, Nat.mod_eq_of_lt (by omega),
    Nat.mod_eq_of_lt (by omega)] at heq

theorem Represents.isFull (h : Represents s q) :
    s.1.isFull = decide (q.queue.length = size k - 1) := by
  have hpos := size_pos k
  have hmask : indexMask k = BitVec.ofNat 64 (size k - 1) := by
    rw [← indexMask_toNat, BitVec.ofNat_toNat, BitVec.setWidth_eq]
  rw [RingBuffer.isFull, h.pushIndex, hmask, decide_eq_decide]
  refine ⟨add_ofNat_inj (k := k) ?_ (by omega), fun heq => by rw [heq]⟩
  have := h.length
  omega

theorem Represents.isEmpty (h : Represents s q) : s.1.isEmpty = q.queue.isEmpty := by
  have hpos := size_pos k
  have hlen := h.length
  rw [RingBuffer.isEmpty, h.pushIndex]
  cases hq : q.queue with
  | nil => simp
  | cons x rest =>
    rw [List.isEmpty_cons, decide_eq_false_iff_not]
    intro heq
    rw [hq, List.length_cons] at hlen
    have hzero : s.1.popIndex + BitVec.ofNat 64 0 =
        s.1.popIndex + BitVec.ofNat 64 (x :: rest).length := by
      simpa using heq
    have := add_ofNat_inj (k := k) (by omega) (by rw [List.length_cons]; omega) hzero
    exact absurd this.symm (Nat.succ_ne_zero _)

theorem Represents.push (h : Represents s q) (x : α) :
    Represents (step s (.push x)).1 (q.step (size k - 1) (.push x)).1 ∧
      (step s (.push x)).2 = (q.step (size k - 1) (.push x)).2 := by
  have hpos := size_pos k
  have hlen := h.length
  simp only [step, RingBuffer.push, h.isFull, BoundedQueue.step, decide_eq_true_eq]
  split
  · exact ⟨h, rfl⟩
  rename_i hroom
  refine ⟨⟨?_, ?_, ?_, ?_⟩, rfl⟩
  · rw [List.length_append, List.length_singleton]
    omega
  · rw [List.length_append, List.length_singleton, BitVec.ofNat_add, ← BitVec.add_assoc,
      ← h.pushIndex]
    rfl
  · intro i hi
    rw [h.pushIndex, slot_add]
    simp only
    by_cases hlast : i = q.queue.length
    · subst hlast
      rw [if_pos rfl, List.getElem_concat_length rfl]
    · rw [List.length_append, List.length_singleton] at hi
      rw [if_neg (mod_ne_of_lt (by omega) (by omega)), List.getElem_append_left (by omega)]
      exact h.data i (by omega)
  · refine h.taken.imp id ?_
    rintro ⟨hptr, htaken⟩
    refine ⟨hptr, ?_⟩
    rw [htaken, h.pushIndex, slot_add]
    simp only
    rw [if_neg (mod_ne_of_lt (by omega) (by omega)).symm]

theorem Represents.pop (h : Represents s q) :
    Represents (step s .pop).1 (q.step (size k - 1) .pop).1 ∧
      (step s .pop).2 = (q.step (size k - 1) .pop).2 := by
  have hpos := size_pos k
  have hlen := h.length
  have hempty := h.isEmpty
  have hpush := h.pushIndex
  have hdata := h.data
  obtain ⟨queue, taken⟩ := q
  simp only [step, RingBuffer.pop, hempty, BoundedQueue.step]
  cases queue with
  | nil =>
    simp only [List.isEmpty_nil, if_pos]
    exact ⟨⟨hlen, hpush, hdata, .inl ⟨rfl, rfl⟩⟩, rfl⟩
  | cons x rest =>
    have hslot : slot k s.1.popIndex = s.1.popIndex.toNat % size k := slot_eq k _
    have hx : s.1.data (s.1.popIndex.toNat % size k) = x := hdata 0 (Nat.zero_lt_succ _)
    have hnext (n : ℕ) : ((s.1.popIndex + 1).toNat + n) % size k =
        (s.1.popIndex.toNat + (n + 1)) % size k := by
      have hadd := slot_add k s.1.popIndex 1
      rw [slot_eq] at hadd
      rw [Nat.add_mod, show s.1.popIndex + 1 = s.1.popIndex + BitVec.ofNat 64 1 from rfl, hadd,
        ← Nat.add_mod, Nat.add_assoc, Nat.add_comm 1 n]
    simp only [List.isEmpty_cons, Bool.false_eq_true, if_false, Option.map_some, hslot]
    refine ⟨⟨?_, ?_, ?_, .inr ⟨?_, ?_⟩⟩, by rw [hx]⟩
    · exact Nat.le_of_succ_le hlen
    · rw [hpush, List.length_cons, Nat.add_comm, BitVec.ofNat_add, ← BitVec.add_assoc]
      rfl
    · intro i hi
      rw [hnext]
      exact hdata (i + 1) (Nat.succ_lt_succ hi)
    · rw [hnext, Nat.sub_add_cancel hpos, Nat.add_mod_right]
    · rw [hnext, Nat.sub_add_cancel hpos, Nat.add_mod_right, hx]

theorem Represents.clear (_ : Represents s q) :
    Represents (step s .clear).1 (q.step (size k - 1) .clear).1 ∧
      (step s .clear).2 = (q.step (size k - 1) .clear).2 :=
  ⟨⟨Nat.zero_le _, rfl, fun _ hi => absurd hi (Nat.not_lt_zero _), .inl ⟨rfl, rfl⟩⟩, rfl⟩

/-- **Every operation on a buffer is the one on the queue.** -/
theorem Represents.step (h : Represents s q) (op : QueueOp α) :
    Represents (step s op).1 (q.step (size k - 1) op).1 ∧
      (RingBuffer.step s op).2 = (q.step (size k - 1) op).2 := by
  cases op with
  | push x => exact h.push x
  | pop => exact h.pop
  | clear => exact h.clear
  | isEmpty => exact ⟨h, congrArg QueueAnswer.bool h.isEmpty⟩
  | isFull => exact ⟨h, congrArg QueueAnswer.bool h.isFull⟩
  | last =>
    refine ⟨h, congrArg QueueAnswer.elem ?_⟩
    rcases h.taken with ⟨hptr, htaken⟩ | ⟨hptr, htaken⟩
    · rw [hptr, htaken]
      rfl
    · rw [hptr, htaken]
      rfl

end

theorem represents_initial (elements : ℕ → α) :
    Represents ((initial elements : RingBuffer k α), none) .empty :=
  ⟨Nat.zero_le _, rfl, fun _ hi => absurd hi (Nat.not_lt_zero _), .inl ⟨rfl, rfl⟩⟩

/-- **The ring buffer is a bounded queue** of one element less than its size: it answers
every sequence of operations as the queue does. -/
theorem refines (elements : ℕ → α) (ops : List (QueueOp α)) :
    BoundedQueue.answers step ((initial elements : RingBuffer k α), none) ops =
      BoundedQueue.answers (BoundedQueue.step (size k - 1)) .empty ops :=
  BoundedQueue.answers_eq Represents (fun _ _ op h => h.step op) (represents_initial elements)
    ops

/-! ### The elements in a buffer

What a program needs that does not keep the pointers it has popped. -/

/-- The elements of a list are in the buffer, in this order. -/
def Holds (b : RingBuffer k α) (l : List α) : Prop := Represents (b, none) ⟨l, none⟩

section

variable {b : RingBuffer k α} {l : List α}

theorem holds_initial (elements : ℕ → α) : Holds (initial elements : RingBuffer k α) [] :=
  represents_initial elements

theorem Holds.count (h : Holds b l) : b.count = l.length := by
  have hle := size_le k
  have hlen : l.length ≤ size k - 1 := h.length
  have hpush : b.pushIndex = b.popIndex + BitVec.ofNat 64 l.length := h.pushIndex
  rw [RingBuffer.count, hpush, BitVec.add_comm, BitVec.add_sub_cancel, BitVec.toNat_ofNat]
  exact Nat.mod_eq_of_lt (by omega)

theorem Holds.contents (h : Holds b l) : b.contents = l := by
  refine List.ext_getElem ?_ fun i hi hi' => ?_
  · rw [RingBuffer.contents, List.length_map, List.length_range, h.count]
  · have hdata : b.data ((b.popIndex.toNat + i) % size k) = l[i] := h.data i hi'
    rw [← hdata, ← slot_add]
    simp [RingBuffer.contents]

theorem Holds.isEmpty (h : Holds b l) : b.isEmpty = l.isEmpty := Represents.isEmpty h

theorem Holds.push (h : Holds b l) (x : α) :
    (b.push x).2 = decide (l.length < size k - 1) ∧
      Holds (b.push x).1 (if l.length < size k - 1 then l ++ [x] else l) := by
  have hlen : l.length ≤ size k - 1 := h.length
  obtain ⟨hnext, hanswer⟩ := Represents.push h x
  by_cases hfull : l.length = size k - 1
  · rw [if_neg (by omega)]
    rw [BoundedQueue.step, if_pos hfull] at hnext hanswer
    refine ⟨(QueueAnswer.bool.inj hanswer).trans (decide_eq_false ?_).symm, hnext⟩
    omega
  · rw [if_pos (by omega)]
    rw [BoundedQueue.step, if_neg hfull] at hnext hanswer
    refine ⟨(QueueAnswer.bool.inj hanswer).trans (decide_eq_true ?_).symm, hnext⟩
    omega

theorem Holds.pop_nil (h : Holds b []) : b.pop = (b, none) := by
  rw [RingBuffer.pop, h.isEmpty]
  rfl

theorem Holds.pop_cons {x : α} {rest : List α} (h : Holds b (x :: rest)) :
    ∃ b' i, b.pop = (b', some i) ∧ b'.data i = x ∧ Holds b' rest := by
  obtain ⟨hnext, hanswer⟩ := Represents.pop h
  have hpop : b.pop = ({ b with popIndex := b.popIndex + 1 }, some (slot k b.popIndex)) := by
    rw [RingBuffer.pop, h.isEmpty]
    rfl
  refine ⟨_, _, hpop, ?_, ?_⟩
  · rw [RingBuffer.step, hpop] at hanswer
    exact Option.some.inj (QueueAnswer.elem.inj hanswer)
  · rw [RingBuffer.step, hpop] at hnext
    exact ⟨hnext.length, hnext.pushIndex, hnext.data, .inl ⟨rfl, rfl⟩⟩

end

/-! ### Moving elements to another buffer -/

variable {k' : Fin 64}

/-- The loop that pops the elements of a buffer and pushes them into another one, with a bound
on its rounds. -/
def moveTo : ℕ → RingBuffer k α → RingBuffer k' α → RingBuffer k α × RingBuffer k' α
  | 0, b, b' => (b, b')
  | bound + 1, b, b' =>
    match b.pop with
    | (_, none) => (b, b')
    | (rest, some pointer) => moveTo bound rest (b'.push (rest.data pointer)).1

section

variable {b : RingBuffer k α} {b' : RingBuffer k' α} {l l' : List α}

/-- **All elements are moved**, and those are lost for which there is no room. -/
theorem Holds.moveTo (h : Holds b l) (h' : Holds b' l') :
    Holds (moveTo l.length b b').1 [] ∧
      Holds (moveTo l.length b b').2 (l' ++ l.take (size k' - 1 - l'.length)) := by
  induction l generalizing b b' l' with
  | nil =>
    rw [List.take_nil, List.append_nil]
    exact ⟨h, h'⟩
  | cons x rest ih =>
    obtain ⟨c, i, hpop, rfl, hrest⟩ := h.pop_cons
    rw [List.length_cons, RingBuffer.moveTo, hpop]
    have hpush := (h'.push (c.data i)).2
    split_ifs at hpush with hroom
    · obtain ⟨n, hn⟩ : ∃ n, size k' - 1 - l'.length = n + 1 :=
        ⟨size k' - 1 - l'.length - 1, by omega⟩
      have hnext := ih hrest hpush
      have hlen : size k' - 1 - (l' ++ [c.data i]).length = n := by
        rw [List.length_append, List.length_singleton]
        omega
      rw [hlen, List.append_assoc, List.singleton_append] at hnext
      rw [hn, List.take_succ_cons]
      exact hnext
    · have hnone : size k' - 1 - l'.length = 0 := by omega
      have hnext := ih hrest hpush
      rw [hnone, List.take_zero] at hnext ⊢
      exact hnext

/-- The buffer the elements are taken from still has them in its array. -/
theorem Holds.moveTo_from (h : Holds b l) (b' : RingBuffer k' α) :
    (RingBuffer.moveTo l.length b b').1 =
      { b with popIndex := b.popIndex + BitVec.ofNat 64 l.length } := by
  induction l generalizing b b' with
  | nil => simp [RingBuffer.moveTo]
  | cons x rest ih =>
    obtain ⟨c, i, hpop, -, hrest⟩ := h.pop_cons
    have hc : c = { b with popIndex := b.popIndex + 1 } := by
      rw [RingBuffer.pop] at hpop
      split_ifs at hpop
      · exact absurd (Prod.mk.inj hpop).2 (by simp)
      · exact (Prod.mk.inj hpop).1.symm
    rw [List.length_cons, RingBuffer.moveTo, hpop]
    refine (ih hrest _).trans ?_
    rw [hc]
    show _ = ({ b with popIndex := _ } : RingBuffer k α)
    congr 1
    rw [BitVec.add_assoc, Nat.add_comm, BitVec.ofNat_add]
    rfl

/-- Where the other buffer is read from stays. -/
theorem popIndex_moveTo (n : ℕ) (b : RingBuffer k α) (b' : RingBuffer k' α) :
    (RingBuffer.moveTo n b b').2.popIndex = b'.popIndex := by
  induction n generalizing b b' with
  | zero => rfl
  | succ n ih =>
    rw [RingBuffer.moveTo]
    split
    · rfl
    · rw [ih, push]
      split_ifs <;> rfl

/-- A place of the array that nothing is pushed to. -/
theorem data_push_of_ne {i : ℕ} (h : i ≠ slot k' b'.pushIndex) (x : α) :
    (b'.push x).1.data i = b'.data i := by
  rw [push]
  split_ifs
  · rfl
  · exact if_neg h

/-- The places behind the last one that is used are the only ones that are written. -/
theorem data_moveTo_of_ne {n i : ℕ} (b : RingBuffer k α)
    (h : ∀ j < n, i ≠ slot k' (b'.pushIndex + BitVec.ofNat 64 j)) :
    (RingBuffer.moveTo n b b').2.data i = b'.data i := by
  induction n generalizing b b' with
  | zero => rfl
  | succ n ih =>
    rw [RingBuffer.moveTo]
    split
    · rfl
    · rename_i rest pointer _
      have hfirst : i ≠ slot k' b'.pushIndex := by
        have hzero := h 0 (Nat.succ_pos n)
        rwa [BitVec.add_zero] at hzero
      refine (ih rest ?_).trans (data_push_of_ne hfirst _)
      intro j hj
      rw [push]
      split_ifs
      · exact h j (Nat.lt_succ_of_lt hj)
      · have hnext := h (j + 1) (Nat.succ_lt_succ hj)
        rwa [Nat.add_comm, BitVec.ofNat_add, ← BitVec.add_assoc] at hnext

end

end RingBuffer

end Forte
