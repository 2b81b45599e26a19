import Mathlib.Algebra.Ring.Nat
import Forte.Lib.Scanner

/-!
# Conversions in two passes

A text is read item by item and each item is written in another form, away from any program. A
C function that does this for a buffer reads twice: the first pass asks how many units each item
takes and adds them up, the second one writes into the memory that was got for the sum
(`Forte.TwoPass.measure`, `Forte.TwoPass.fill`). If the encoder keeps what it says about the size
of an item, the second pass never lacks room and writes as much as was measured
(`Forte.TwoPass.fill_of_measure`).

What a pass reads is told by the items alone (`Forte.TwoPass.decode`), or by the fault at which
the reading ends: a text may be refused, or read behind its end. A second pass into too little
memory runs out of room (`Forte.TwoPass.fill_of_room`).
-/

namespace Forte

/-- Why reading ends early. -/
inductive Fault
  /-- A position behind the end was read. -/
  | outside
  /-- What was read is not a text. -/
  | refused
  /-- The memory is too small for what is to be written. -/
  | noRoom
  deriving DecidableEq, Repr

/-- How items are written. -/
structure Encoder (γ β : Type) where
  /-- The size of an item; there is none for an item that cannot be written. -/
  length : γ → Option ℕ
  /-- An item, written into memory of a certain room. -/
  write : ℕ → γ → Option (List β)
  write_of_length : ∀ {v n}, length v = some n → ∃ bs : List β, bs.length = n ∧
    ∀ room, n ≤ room → write room v = some bs
  length_le_of_write : ∀ {room v bs}, write room v = some bs → bs.length ≤ room

namespace TwoPass

variable {α β γ : Type} (parse : List α → Except Fault (ℕ × γ))

/-- The items of a text. Each takes at least one unit, so that the length of the text is fuel
enough. -/
def decode : ℕ → List α → Except Fault (List γ)
  | _, [] => .ok []
  | 0, _ :: _ => .error .refused
  | fuel + 1, a :: s => do
    let (used, v) ← parse (a :: s)
    demand .refused (used ≤ (a :: s).length)
    let vs ← decode fuel ((a :: s).drop used)
    .ok (v :: vs)

variable (E : Encoder γ β)

/-- The first pass. -/
def measure : ℕ → List α → Except Fault ℕ
  | _, [] => .ok 0
  | 0, _ :: _ => .error .refused
  | fuel + 1, a :: s => do
    let (used, v) ← parse (a :: s)
    demand .refused (used ≤ (a :: s).length)
    let n ← required .refused (E.length v)
    let m ← measure fuel ((a :: s).drop used)
    .ok (n + m)

/-- The second pass, into memory of a certain room. -/
def fill : ℕ → ℕ → List α → Except Fault (List β)
  | _, _, [] => .ok []
  | 0, _, _ :: _ => .error .refused
  | fuel + 1, room, a :: s => do
    let (used, v) ← parse (a :: s)
    demand .refused (used ≤ (a :: s).length)
    let bs ← required .noRoom (E.write room v)
    let rest ← fill fuel (room - bs.length) ((a :: s).drop used)
    .ok (bs ++ rest)

variable {parse E}

/-- **The second pass writes what the first one measured**, and finds room for it. -/
theorem fill_of_measure {fuel n room : ℕ} {s : List α} (h : measure parse E fuel s = .ok n)
    (hroom : n ≤ room) : ∃ t, fill parse E fuel room s = .ok t ∧ t.length = n := by
  induction fuel generalizing n room s with
  | zero =>
    cases s with
    | nil =>
      cases h
      exact ⟨[], rfl, rfl⟩
    | cons a s => cases h
  | succ fuel ih =>
    cases s with
    | nil =>
      cases h
      exact ⟨[], rfl, rfl⟩
    | cons a s =>
      rw [measure] at h
      simp only [bind_eq_ok, demand_eq_ok, required_eq_ok, Except.ok.injEq] at h
      obtain ⟨⟨used, v⟩, hparse, ⟨⟩, hused, k, hk, m, hm, rfl⟩ := h
      obtain ⟨bs, hlen, hwrite⟩ := E.write_of_length hk
      obtain ⟨t, ht, htlen⟩ := ih hm (by omega : m ≤ room - bs.length)
      refine ⟨bs ++ t, ?_, by rw [List.length_append, hlen, htlen]⟩
      rw [fill]
      simp only [bind_eq_ok, demand_eq_ok, required_eq_ok, Except.ok.injEq]
      exact ⟨(used, v), hparse, (), hused, bs, hwrite room (by omega), t, ht, rfl⟩

/-- The second pass stays in its memory. -/
theorem length_le_of_fill {fuel room : ℕ} {s : List α} {t : List β}
    (h : fill parse E fuel room s = .ok t) : t.length ≤ room := by
  induction fuel generalizing room s t with
  | zero =>
    cases s with
    | nil =>
      cases h
      exact Nat.zero_le _
    | cons a s => cases h
  | succ fuel ih =>
    cases s with
    | nil =>
      cases h
      exact Nat.zero_le _
    | cons a s =>
      rw [fill] at h
      simp only [bind_eq_ok, demand_eq_ok, required_eq_ok, Except.ok.injEq] at h
      obtain ⟨⟨used, v⟩, hparse, ⟨⟩, hused, bs, hwrite, rest, hrest, rfl⟩ := h
      have hbs := E.length_le_of_write hwrite
      have hlen := ih hrest
      rw [List.length_append]
      omega

/-- The first pass adds up the sizes of the items. -/
theorem measure_of_decode {fuel : ℕ} {s : List α} {vs : List γ} {size : γ → ℕ}
    (h : decode parse fuel s = .ok vs) (hsize : ∀ v ∈ vs, E.length v = some (size v)) :
    measure parse E fuel s = .ok (vs.map size).sum := by
  induction fuel generalizing s vs with
  | zero =>
    cases s with
    | nil =>
      cases h
      rfl
    | cons a s => cases h
  | succ fuel ih =>
    cases s with
    | nil =>
      cases h
      rfl
    | cons a s =>
      rw [decode] at h
      simp only [bind_eq_ok, demand_eq_ok, Except.ok.injEq] at h
      obtain ⟨⟨used, v⟩, hparse, ⟨⟩, hused, vs, hvs, rfl⟩ := h
      rw [measure]
      simp only [bind_eq_ok, demand_eq_ok, required_eq_ok, Except.ok.injEq]
      refine ⟨(used, v), hparse, (), hused, size v, hsize v List.mem_cons_self, _,
        ih hvs fun u hu => hsize u (List.mem_cons_of_mem v hu), ?_⟩
      rw [List.map_cons, List.sum_cons]

/-- What the first pass measures can be written. -/
theorem length_of_measure {fuel n : ℕ} {s : List α} {vs : List γ}
    (h : measure parse E fuel s = .ok n) (hdecode : decode parse fuel s = .ok vs) :
    ∀ v ∈ vs, ∃ k, E.length v = some k := by
  induction fuel generalizing n s vs with
  | zero =>
    cases s with
    | nil =>
      cases hdecode
      exact fun v hv => absurd hv List.not_mem_nil
    | cons a s => cases h
  | succ fuel ih =>
    cases s with
    | nil =>
      cases hdecode
      exact fun v hv => absurd hv List.not_mem_nil
    | cons a s =>
      rw [measure] at h
      rw [decode] at hdecode
      simp only [bind_eq_ok, demand_eq_ok, required_eq_ok, Except.ok.injEq] at h hdecode
      obtain ⟨⟨used, v⟩, hparse, ⟨⟩, hused, k, hk, m, hm, rfl⟩ := h
      obtain ⟨read, hparse', ⟨⟩, -, us, hus, rfl⟩ := hdecode
      cases hparse.symm.trans hparse'
      exact List.forall_mem_cons.mpr ⟨⟨k, hk⟩, ih hm hus⟩

/-- A fault ends the first pass as it ends the reading, if all that is read can be written. -/
theorem measure_of_decode_error {fuel : ℕ} {s : List α} {e : Fault}
    (h : decode parse fuel s = .error e)
    (hsize : ∀ s used v, parse s = .ok (used, v) → ∃ n, E.length v = some n) :
    measure parse E fuel s = .error e := by
  induction fuel generalizing s with
  | zero =>
    cases s with
    | nil => cases h
    | cons a s =>
      cases h
      rfl
  | succ fuel ih =>
    cases s with
    | nil => cases h
    | cons a s =>
      rw [decode] at h
      rw [measure]
      cases hparse : parse (a :: s) with
      | error e' =>
        rw [hparse] at h
        cases h
        rfl
      | ok read =>
        obtain ⟨used, v⟩ := read
        obtain ⟨n, hn⟩ := hsize _ _ _ hparse
        rw [hparse] at h
        by_cases hused : used ≤ (a :: s).length
        · have hdemand : demand Fault.refused (used ≤ (a :: s).length) = .ok () :=
            demand_eq_ok.mpr hused
          cases hrest : decode parse fuel ((a :: s).drop used) with
          | ok vs =>
            simp only [bind, Except.bind, hdemand, hrest] at h
            cases h
          | error e' =>
            simp only [bind, Except.bind, hdemand, hrest] at h
            cases h
            simp only [bind, Except.bind, hdemand, hn, required, ih hrest]
        · simp only [bind, Except.bind, demand, if_neg hused] at h ⊢
          cases h
          rfl

/-- The second pass writes the items one after the other. -/
theorem fill_of_decode {fuel room : ℕ} {s : List α} {vs : List γ} {bytes : γ → List β}
    (h : decode parse fuel s = .ok vs)
    (hbytes : ∀ v ∈ vs, ∀ room, (bytes v).length ≤ room → E.write room v = some (bytes v))
    (hroom : (vs.flatMap bytes).length ≤ room) :
    fill parse E fuel room s = .ok (vs.flatMap bytes) := by
  induction fuel generalizing room s vs with
  | zero =>
    cases s with
    | nil =>
      cases h
      rfl
    | cons a s => cases h
  | succ fuel ih =>
    cases s with
    | nil =>
      cases h
      rfl
    | cons a s =>
      rw [decode] at h
      simp only [bind_eq_ok, demand_eq_ok, Except.ok.injEq] at h
      obtain ⟨⟨used, v⟩, hparse, ⟨⟩, hused, vs, hvs, rfl⟩ := h
      rw [List.flatMap_cons, List.length_append] at hroom
      have hsum : (bytes v).length + (vs.flatMap bytes).length ≤ room := hroom
      have hwrite := hbytes v List.mem_cons_self room (by omega)
      have hrest := ih hvs (fun u hu => hbytes u (List.mem_cons_of_mem v hu))
        (by omega : _ ≤ room - (bytes v).length)
      rw [fill]
      simp only [bind_eq_ok, demand_eq_ok, required_eq_ok, Except.ok.injEq]
      exact ⟨(used, v), hparse, (), hused, _, hwrite, _, hrest, rfl⟩

/-- A second pass into too little memory. -/
theorem fill_of_room {fuel room : ℕ} {s : List α} {vs : List γ} {bytes : γ → List β}
    (h : decode parse fuel s = .ok vs)
    (hbytes : ∀ v ∈ vs, ∀ room,
      E.write room v = if (bytes v).length ≤ room then some (bytes v) else none)
    (hroom : room < (vs.flatMap bytes).length) :
    fill parse E fuel room s = .error .noRoom := by
  induction fuel generalizing room s vs with
  | zero =>
    cases s with
    | nil =>
      cases h
      cases hroom
    | cons a s => cases h
  | succ fuel ih =>
    cases s with
    | nil =>
      cases h
      cases hroom
    | cons a s =>
      rw [decode] at h
      simp only [bind_eq_ok, demand_eq_ok, Except.ok.injEq] at h
      obtain ⟨⟨used, v⟩, hparse, ⟨⟩, hused, vs, hvs, rfl⟩ := h
      have hsum : room < (bytes v).length + (vs.flatMap bytes).length := by
        rw [← List.length_append]
        exact hroom
      have hdemand : demand Fault.refused (used ≤ (a :: s).length) = .ok () :=
        demand_eq_ok.mpr hused
      rw [fill, hparse]
      by_cases hv : (bytes v).length ≤ room
      · have hwrite := (hbytes v List.mem_cons_self room).trans (if_pos hv)
        have hrest := ih hvs (fun u hu => hbytes u (List.mem_cons_of_mem v hu))
          (by omega : room - (bytes v).length < _)
        simp only [bind, Except.bind, hdemand, hwrite, required, hrest]
      · have hwrite := (hbytes v List.mem_cons_self room).trans (if_neg hv)
        simp only [bind, Except.bind, hdemand, hwrite, required]

end TwoPass

end Forte
