import Mathlib.Data.Int.Notation
import Mathlib.Data.List.Basic
import Forte.Lib.Runs
import Forte.Management.Container

/-!
# The timers of IEC 61131

`FB_TON`, `FB_TOF` and `FB_TP` look at the clock only when they get a `REQ`. What they should show
then is a function of the `REQ`s since they have been created or reset
(`Forte.TimerType.Q`, `Forte.TimerType.ET`).

What they remember between two `REQ`s are private flags and a start time. Nobody initializes
these: not the constructor, and not `setInitialValues` in a `Reset`, which only sets the ports. So
a block may begin with flags that belong to an earlier life. Apart from that `FB_TON` and `FB_TOF`
are as they should be, but `FB_TP` ends a pulse one `REQ` too late, because it looks at the
elapsed time of the `REQ` before. In runs where neither matters (`Forte.TimerFB.Orderly`), and
only in these, the blocks show what they should (`Forte.TimerFB.shows_iff`).
-/

namespace Forte

/-- A `REQ`, and the time at which it is executed. -/
structure TimerRequest where
  varIN : Bool
  /-- `func_NOW_MONOTONIC`. -/
  now : BitVec 64

/-- The data ports of a timer. -/
structure TimerPorts where
  varIN : Bool
  varPT : BitVec 64
  varQ : Bool
  varET : BitVec 64

/-- The private members of `FB_TON`. -/
structure TON where
  risingEdge : Bool
  start : BitVec 64
  count : BitVec 64

/-- The private members of `FB_TOF`. -/
structure TOF where
  fallingEdge : Bool
  notFirstRisingEdge : Bool
  start : BitVec 64
  count : BitVec 64

/-- The private members of `FB_TP`. -/
structure TP where
  edgeFlag : Bool
  start : BitVec 64

/-! ### The function blocks -/

/-- `executeEvent` of `FB_TON`. -/
def TON.executeEvent (now : BitVec 64) (m : TON) (v : TimerPorts) : TON × TimerPorts :=
  if ¬v.varIN then
    ({ m with risingEdge := false, start := 0 }, { v with varQ := false, varET := 0 })
  else if ¬m.risingEdge then
    ({ m with risingEdge := true, start := now }, v)
  else
    let m := { m with count := now - m.start }
    if v.varPT.toInt ≤ m.count.toInt then (m, { v with varQ := true, varET := v.varPT })
    else (m, { v with varET := m.count })

/-- `executeEvent` of `FB_TOF`. -/
def TOF.executeEvent (now : BitVec 64) (m : TOF) (v : TimerPorts) : TOF × TimerPorts :=
  if v.varIN then
    ({ m with fallingEdge := false, notFirstRisingEdge := true, start := 0 },
      { v with varQ := true, varET := 0 })
  else if m.notFirstRisingEdge then
    if ¬m.fallingEdge then
      ({ m with fallingEdge := true, start := now }, v)
    else
      let m := { m with count := now - m.start }
      if v.varPT.toInt ≤ m.count.toInt then (m, { v with varQ := false, varET := v.varPT })
      else (m, { v with varET := m.count })
  else (m, v)

/-- `executeEvent` of `FB_TP`. -/
def TP.executeEvent (now : BitVec 64) (m : TP) (v : TimerPorts) : TP × TimerPorts :=
  if m.edgeFlag then
    if v.varPT.toInt ≤ v.varET.toInt then ({ m with edgeFlag := false }, { v with varQ := false })
    else (m, { v with varET := now - m.start })
  else if v.varIN ∧ v.varET = 0 then
    ({ edgeFlag := true, start := now }, { v with varQ := true })
  else if v.varIN ∧ 0 < v.varET.toInt then (m, { v with varET := 0 })
  else (m, v)

/-- The timers of IEC 61131. -/
inductive TimerType
  | ton | tof | tp

/-- The private members of a timer. -/
def TimerType.Members : TimerType → Type
  | ton => TON
  | tof => TOF
  | tp => TP

/-- `executeEvent` of a timer. -/
def TimerType.executeEvent (now : BitVec 64) :
    (t : TimerType) → t.Members → TimerPorts → t.Members × TimerPorts
  | ton => TON.executeEvent now
  | tof => TOF.executeEvent now
  | tp => TP.executeEvent now

/-- What `setInitialValues` sets, which is also what the constructors initialize. -/
def TimerPorts.initial : TimerPorts := ⟨false, 0, false, 0⟩

/-- A timer function block. -/
structure TimerFB (t : TimerType) where
  mFBState : FBState
  ports : TimerPorts
  members : t.Members
  /-- The `REQ`s that have been executed since the block has been created or reset, the last one
  first. -/
  history : List TimerRequest

/-- What happens to a timer. -/
inductive TimerStep
  | req (request : TimerRequest)
  /-- `changeExecutionState`. -/
  | changeExecutionState (paCommand : ExecutionCmd)

namespace TimerFB

variable {t : TimerType}

/-- A new function block. Nothing is known of its private members. -/
def initial (members : t.Members) : TimerFB t := ⟨.idle, .initial, members, []⟩

/-- A step of a timer whose input `PT` is constant. -/
def next (varPT : BitVec 64) (s : TimerFB t) : TimerStep → TimerFB t
  | .req request =>
    if s.mFBState = .running then
      let executed := t.executeEvent request.now s.members
        { s.ports with varIN := request.varIN, varPT := varPT }
      { s with members := executed.1, ports := executed.2, history := request :: s.history }
    else s
  | .changeExecutionState paCommand =>
    match s.mFBState.change paCommand with
    | none => s
    | some mFBState =>
      if paCommand = .reset then
        { s with mFBState := mFBState, ports := .initial, history := [] }
      else { s with mFBState := mFBState }

end TimerFB

/-! ### What timers should show -/

namespace TimerType

/-- How long before the last `REQ` a time is. -/
def elapsed (history : List TimerRequest) (since : BitVec 64) : ℤ :=
  match history with
  | [] => 0
  | request :: _ => request.now.toInt - since.toInt

/-- The first one of the `REQ`s with which `IN` has been true without interruption. -/
def sinceRising (history : List TimerRequest) : Option (BitVec 64) :=
  (history.takeWhile (·.varIN)).getLast?.map TimerRequest.now

/-- The first `REQ` with `IN` false after the last one with `IN` true. -/
def sinceFalling (history : List TimerRequest) : Option (BitVec 64) :=
  if history.any (·.varIN) then
    (history.takeWhile (!·.varIN)).getLast?.map TimerRequest.now
  else none

/-- The last pulse: its start, and whether it is still running. One starts with a rising edge of
`IN` while none is running, and it runs until the first `REQ` at which at least `PT` has
elapsed. -/
def pulse (varPT : BitVec 64) : List TimerRequest → Option (BitVec 64 × Bool)
  | [] => none
  | request :: history =>
    match pulse varPT history with
    | some (start, true) =>
      some (start, decide (request.now.toInt - start.toInt < varPT.toInt))
    | last =>
      if request.varIN ∧ ¬∃ previous ∈ history.head?, previous.varIN then some (request.now, true)
      else last

/-- The time from which on a timer counts. -/
def since (varPT : BitVec 64) : TimerType → List TimerRequest → Option (BitVec 64)
  | ton, history => sinceRising history
  | tof, history => sinceFalling history
  | tp, history => (pulse varPT history).map Prod.fst

/-- **When `Q` should be true.** -/
def Q (varPT : BitVec 64) : TimerType → List TimerRequest → Prop
  | ton, history =>
    ∃ request ∈ history.takeWhile (·.varIN), varPT.toInt ≤ elapsed history request.now
  | tof, history =>
    (∃ request ∈ history.head?, request.varIN) ∨
      ∃ start ∈ sinceFalling history, elapsed history start < varPT.toInt
  | tp, history => ∃ start, pulse varPT history = some (start, true)

/-- **What `ET` should be**: the elapsed time, capped at `PT`. -/
def ET (varPT : BitVec 64) (t : TimerType) (history : List TimerRequest) : ℤ :=
  match t.since varPT history with
  | none => 0
  | some start => min varPT.toInt (elapsed history start)

end TimerType

/-- **What is asked of the outputs** of a timer. -/
structure TimerType.Shown (varPT : BitVec 64) (t : TimerType) (v : TimerPorts)
    (history : List TimerRequest) : Prop where
  varQ : v.varQ = true ↔ t.Q varPT history
  varET : v.varET.toInt = t.ET varPT history

/-- A `FB_TON` does not count from a time of an earlier life. -/
def TON.Orderly (m : TON) (request : TimerRequest) (history : List TimerRequest) : Prop :=
  request.varIN → history = [] → m.risingEdge → m.start = request.now

/-- A `FB_TOF` does not count from a time of an earlier life. -/
def TOF.Orderly (m : TOF) (request : TimerRequest) (history : List TimerRequest) : Prop :=
  ¬request.varIN → ¬history.any (·.varIN) → m.notFirstRisingEdge → m.fallingEdge →
    m.start = request.now

/-- A `FB_TP` has no pulse of an earlier life, and the pulse does not end. -/
def TP.Orderly (varPT : BitVec 64) (m : TP) (v : TimerPorts) (request : TimerRequest) : Prop :=
  m.edgeFlag →
    if v.varQ then request.now.toInt - m.start.toInt < varPT.toInt
    else ¬request.varIN ∧ m.start = request.now

/-- A `REQ` that a timer can cope with. -/
def TimerType.Orderly (varPT : BitVec 64) (v : TimerPorts) (request : TimerRequest)
    (history : List TimerRequest) : (t : TimerType) → t.Members → Prop
  | ton, m => TON.Orderly m request history
  | tof, m => TOF.Orderly m request history
  | tp, m => TP.Orderly varPT m v request

namespace TimerFB

variable {t : TimerType}

/-- **The outputs are as they should be.** -/
def Shows (varPT : BitVec 64) (s : TimerFB t) : Prop := t.Shown varPT s.ports s.history

/-- **The steps in order.** -/
def Orderly (varPT : BitVec 64) (s : TimerFB t) : TimerStep → Prop
  | .req request =>
    s.mFBState = .running → t.Orderly varPT s.ports request s.history s.members
  | .changeExecutionState _ => True

end TimerFB

/-- The times of the `REQ`s of a run. -/
def TimerStep.time? : TimerStep → Option (BitVec 64)
  | req request => some request.now
  | changeExecutionState _ => none

/-- **A monotonic clock**: the times of the `REQ`s do not decrease. -/
structure Monotonic (steps : List TimerStep) : Prop where
  pairwise : (steps.filterMap TimerStep.time?).Pairwise fun a b => a.toInt ≤ b.toInt
  nonneg : ∀ now ∈ steps.filterMap TimerStep.time?, 0 ≤ now.toInt

namespace TimerType

/-! ### The times from which timers count -/

/-- The times of a history do not decrease. -/
structure Ordered (history : List TimerRequest) : Prop where
  pairwise : history.Pairwise fun later earlier => earlier.now.toInt ≤ later.now.toInt
  nonneg : ∀ request ∈ history, 0 ≤ request.now.toInt

/-- The difference of two times of the clock does not overflow. -/
theorem toInt_sub {a b : BitVec 64} (ha : 0 ≤ a.toInt) (h : a.toInt ≤ b.toInt) :
    (b - a).toInt = b.toInt - a.toInt := by
  have hb := @BitVec.toInt_lt _ b
  rw [BitVec.toInt_sub]
  exact Int.bmod_eq_of_le (by omega) (by omega)

theorem sub_eq_zero_iff {a b : BitVec 64} : (b - a).toInt = 0 ↔ a = b := by
  rw [← BitVec.toInt_zero, BitVec.toInt_inj, BitVec.sub_eq_iff_eq_add, BitVec.zero_add, eq_comm]

section

variable {request : TimerRequest} {history : List TimerRequest} {start : BitVec 64}

theorem Ordered.tail (h : Ordered (request :: history)) : Ordered history where
  pairwise := h.pairwise.of_cons
  nonneg := fun earlier hmem => h.nonneg earlier (List.mem_cons_of_mem request hmem)

theorem Ordered.le (h : Ordered (request :: history)) {earlier : TimerRequest}
    (hmem : earlier ∈ history) : earlier.now.toInt ≤ request.now.toInt :=
  List.rel_of_pairwise_cons h.pairwise hmem

theorem sinceRising_cons :
    sinceRising (request :: history) =
      if request.varIN then some ((sinceRising history).getD request.now) else none := by
  rw [sinceRising, List.takeWhile_cons]
  split
  · rw [List.getLast?_cons, Option.map_some, sinceRising, Option.getD_map]
  · rfl

theorem sinceFalling_cons :
    sinceFalling (request :: history) =
      if ¬request.varIN ∧ history.any (·.varIN) then
        some ((sinceFalling history).getD request.now)
      else none := by
  rw [sinceFalling, List.takeWhile_cons, List.any_cons, sinceFalling]
  cases request.varIN with
  | true => rfl
  | false =>
    rw [Bool.false_or, Bool.not_false, if_pos rfl]
    split
    · rw [if_pos ⟨Bool.false_ne_true, ‹_›⟩, List.getLast?_cons, Option.map_some, Option.getD_map]
    · rw [if_neg fun h => absurd h.2 ‹_›]

theorem exists_of_sinceRising (h : sinceRising history = some start) :
    ∃ request ∈ history, request.now = start := by
  obtain ⟨request, hlast, hnow⟩ := Option.map_eq_some_iff.mp h
  exact ⟨request, (List.takeWhile_sublist _).subset (List.mem_of_getLast? hlast), hnow⟩

theorem exists_of_sinceFalling (h : sinceFalling history = some start) :
    ∃ request ∈ history, request.now = start := by
  rw [sinceFalling] at h
  split at h
  · obtain ⟨request, hlast, hnow⟩ := Option.map_eq_some_iff.mp h
    exact ⟨request, (List.takeWhile_sublist _).subset (List.mem_of_getLast? hlast), hnow⟩
  · exact absurd h nofun

theorem pulse_cons_of_running {varPT : BitVec 64} (h : pulse varPT history = some (start, true)) :
    pulse varPT (request :: history) =
      some (start, decide (request.now.toInt - start.toInt < varPT.toInt)) := by
  rw [pulse, h]

/-- Without a pulse there has been no rising edge. -/
theorem not_varIN_of_pulse {varPT : BitVec 64} (h : pulse varPT history = none) :
    ∀ request ∈ history, ¬request.varIN := by
  induction history with
  | nil => exact fun _ hmem => absurd hmem List.not_mem_nil
  | cons request history ih =>
    rw [pulse] at h
    split at h
    · exact absurd h nofun
    · split at h
      · exact absurd h nofun
      · rename_i hedge
        have hrest := ih h
        have hprevious : ¬∃ previous ∈ history.head?, previous.varIN := by
          rintro ⟨previous, hmem, hin⟩
          exact hrest previous (List.mem_of_mem_head? hmem) hin
        exact List.forall_mem_cons.mpr ⟨fun hin => hedge ⟨hin, hprevious⟩, hrest⟩

theorem pulse_cons_of_none {varPT : BitVec 64} (h : pulse varPT history = none) :
    pulse varPT (request :: history) =
      if request.varIN then some (request.now, true) else none := by
  have hprevious : ¬∃ previous ∈ history.head?, previous.varIN := by
    rintro ⟨previous, hmem, hin⟩
    exact not_varIN_of_pulse h previous (List.mem_of_mem_head? hmem) hin
  rw [pulse, h]
  simp only [hprevious, not_false_eq_true, and_true]

theorem exists_of_pulse {varPT : BitVec 64} {running : Bool}
    (h : pulse varPT history = some (start, running)) :
    ∃ request ∈ history, request.now = start := by
  induction history generalizing running with
  | nil => exact absurd h nofun
  | cons request history ih =>
    rw [pulse] at h
    split at h
    · rename_i hlast
      obtain ⟨rfl, -⟩ := Prod.mk.inj (Option.some.inj h)
      obtain ⟨earlier, hmem, hnow⟩ := ih hlast
      exact ⟨earlier, List.mem_cons_of_mem request hmem, hnow⟩
    · split at h
      · obtain ⟨rfl, -⟩ := Prod.mk.inj (Option.some.inj h)
        exact ⟨request, List.mem_cons_self, rfl⟩
      · obtain ⟨earlier, hmem, hnow⟩ := ih h
        exact ⟨earlier, List.mem_cons_of_mem request hmem, hnow⟩

/-- `FB_TON` in terms of the time it counts from: the first `REQ` is the one that lies the
farthest back. -/
theorem q_ton_iff {varPT : BitVec 64} (h : Ordered (request :: history)) :
    ton.Q varPT (request :: history) ↔
      ∃ start ∈ sinceRising (request :: history),
        varPT.toInt ≤ request.now.toInt - start.toInt := by
  constructor
  · rintro ⟨earlier, hmem, hle⟩
    have hne := List.ne_nil_of_mem hmem
    have hlast : (((request :: history).takeWhile (·.varIN)).getLast hne).now.toInt ≤
        earlier.now.toInt := by
      have hpairwise := h.pairwise.sublist (List.takeWhile_sublist (·.varIN))
      rw [← List.dropLast_append_getLast hne, List.pairwise_append] at hpairwise
      rw [← List.dropLast_append_getLast hne, List.mem_append, List.mem_singleton] at hmem
      rcases hmem with hmem | rfl
      · exact hpairwise.2.2 earlier hmem _ (List.mem_singleton.mpr rfl)
      · exact Int.le_refl _
    refine ⟨_, Option.mem_map_of_mem TimerRequest.now (List.getLast?_eq_some_getLast hne), ?_⟩
    change varPT.toInt ≤ request.now.toInt - earlier.now.toInt at hle
    omega
  · rintro ⟨start, hstart, hle⟩
    obtain ⟨earlier, hlast, rfl⟩ := Option.map_eq_some_iff.mp hstart
    exact ⟨earlier, List.mem_of_getLast? hlast, hle⟩

end

end TimerType

/-! ### One `REQ` -/

open TimerType

section

variable {varPT : BitVec 64} {v : TimerPorts} {request : TimerRequest}
  {history : List TimerRequest}

/-- The flags of a `FB_TON` belong to its history. -/
def TON.Linked (m : TON) (history : List TimerRequest) : Prop :=
  history ≠ [] → sinceRising history = if m.risingEdge then some m.start else none

theorem TimerType.et_of_since {t : TimerType} {start : BitVec 64}
    (h : t.since varPT (request :: history) = some start) :
    t.ET varPT (request :: history) = min varPT.toInt (request.now.toInt - start.toInt) := by
  rw [ET, h]
  rfl

theorem TimerType.et_of_none {t : TimerType} (h : t.since varPT history = none) :
    t.ET varPT history = 0 := by
  rw [ET, h]

theorem shown_ton_of_none (h : sinceRising history = none) :
    ton.Shown varPT v history ↔ v.varQ = false ∧ v.varET.toInt = 0 := by
  have hnever : ¬ton.Q varPT history := by
    rintro ⟨earlier, hmem, -⟩
    rw [sinceRising, Option.map_eq_none_iff, List.getLast?_eq_none_iff] at h
    exact absurd (h ▸ hmem) List.not_mem_nil
  constructor
  · rintro ⟨hq, het⟩
    exact ⟨Bool.eq_false_iff.mpr fun htrue => hnever (hq.mp htrue),
      het.trans (et_of_none (t := ton) h)⟩
  · rintro ⟨hq, het⟩
    exact ⟨iff_of_false (Bool.eq_false_iff.mp hq) hnever, het.trans (et_of_none (t := ton) h).symm⟩

theorem shown_ton_of_some (hordered : Ordered (request :: history)) {start : BitVec 64}
    (h : sinceRising (request :: history) = some start) :
    ton.Shown varPT v (request :: history) ↔
      (v.varQ = true ↔ varPT.toInt ≤ request.now.toInt - start.toInt) ∧
        v.varET.toInt = min varPT.toInt (request.now.toInt - start.toInt) := by
  have hq : ton.Q varPT (request :: history) ↔
      varPT.toInt ≤ request.now.toInt - start.toInt := by
    rw [q_ton_iff hordered, h]
    simp
  have het : ton.ET varPT (request :: history) =
      min varPT.toInt (request.now.toInt - start.toInt) := et_of_since (t := ton) h
  rw [← hq, ← het]
  exact ⟨fun hshown => ⟨hshown.varQ, hshown.varET⟩, fun hshown => ⟨hshown.1, hshown.2⟩⟩

/-- A `FB_TON` that is counting. -/
theorem TON.executeEvent_counting {m : TON} (h : m.risingEdge = true) (now : BitVec 64) :
    m.executeEvent now { v with varIN := true, varPT := varPT } =
      if varPT.toInt ≤ (now - m.start).toInt then
        ({ m with count := now - m.start },
          { v with varIN := true, varPT := varPT, varQ := true, varET := varPT })
      else
        ({ m with count := now - m.start },
          { v with varIN := true, varPT := varPT, varET := now - m.start }) := by
  rw [executeEvent, if_neg (by simp), if_neg (by simp [h])]

/-- **A `REQ` to a `FB_TON`.** -/
theorem TON.executeEvent_spec (hPT : 0 < varPT.toInt) {m : TON}
    (hshown : ton.Shown varPT v history) (hlinked : m.Linked history)
    (hordered : Ordered (request :: history)) :
    (ton.Shown varPT
        (m.executeEvent request.now { v with varIN := request.varIN, varPT := varPT }).2
        (request :: history) ↔ m.Orderly request history) ∧
      (m.Orderly request history →
        (m.executeEvent request.now { v with varIN := request.varIN, varPT := varPT }).1.Linked
          (request :: history)) := by
  have hcons := @sinceRising_cons request history
  obtain ⟨varIN, now⟩ := request
  cases varIN with
  | false =>
    refine ⟨iff_of_true ?_ nofun, fun _ _ => hcons⟩
    exact (shown_ton_of_none hcons).mpr ⟨rfl, rfl⟩
  | true =>
    rw [if_pos rfl] at hcons
    dsimp only at hcons ⊢
    cases hedge : m.risingEdge with
    | false =>
      have hnone : sinceRising history = none := by
        rcases eq_or_ne history [] with rfl | hne
        · rfl
        · rw [hlinked hne, hedge]
          rfl
      have hsince : sinceRising (⟨true, now⟩ :: history) = some now := by
        rw [hcons, hnone]
        rfl
      have hexecute : m.executeEvent now { v with varIN := true, varPT := varPT } =
          ({ m with risingEdge := true, start := now },
            { v with varIN := true, varPT := varPT }) := by
        rw [executeEvent, if_neg (by simp), if_pos (by simp [hedge])]
      obtain ⟨hq, het⟩ := (shown_ton_of_none hnone).mp hshown
      rw [hexecute]
      refine ⟨iff_of_true ((shown_ton_of_some hordered hsince).mpr ?_) ?_, fun _ _ => hsince⟩
      · dsimp only
        exact ⟨iff_of_false (Bool.eq_false_iff.mp hq) (by omega), by omega⟩
      · exact fun _ _ hrising => absurd (hedge.symm.trans hrising) Bool.false_ne_true
    | true =>
      rw [TON.executeEvent_counting hedge]
      rcases eq_or_ne history [] with rfl | hne
      · have hsince : sinceRising [⟨true, now⟩] = some now := hcons
        obtain ⟨hq, het⟩ := (shown_ton_of_none rfl).mp hshown
        have hstale : m.Orderly ⟨true, now⟩ [] ↔ (now - m.start).toInt = 0 := by
          rw [sub_eq_zero_iff]
          exact ⟨fun h => h rfl rfl hedge, fun h _ _ _ => h⟩
        rw [hstale]
        split
        · rename_i hle
          refine ⟨iff_of_false (fun h => ?_) (by omega), fun h => by omega⟩
          have hfar := ((shown_ton_of_some hordered hsince).mp h).1.mp rfl
          dsimp only at hfar
          omega
        · refine ⟨(shown_ton_of_some hordered hsince).trans ?_, fun h _ => ?_⟩
          · dsimp only
            rw [hq, and_iff_right (iff_of_false Bool.false_ne_true (by omega))]
            omega
          · rw [hsince]
            rw [sub_eq_zero_iff] at h
            rw [← h]
            exact (if_pos hedge).symm
      · have hstart : sinceRising history = some m.start := by
          rw [hlinked hne, hedge]
          rfl
        have hsince : sinceRising (⟨true, now⟩ :: history) = some m.start := by
          rw [hcons, hstart]
          rfl
        obtain ⟨earlier, hmem, hnow⟩ := exists_of_sinceRising hstart
        have hcount := toInt_sub (hordered.tail.nonneg earlier hmem) (hordered.le hmem)
        rw [hnow] at hcount
        have horderly : m.Orderly ⟨true, now⟩ history := fun _ hnil => absurd hnil hne
        split
        · rename_i hle
          refine ⟨iff_of_true ((shown_ton_of_some hordered hsince).mpr ?_) horderly, fun _ _ => ?_⟩
          · dsimp only at hcount ⊢
            exact ⟨iff_of_true rfl (by omega), by omega⟩
          · exact hsince.trans (if_pos hedge).symm
        · rename_i hless
          refine ⟨iff_of_true ((shown_ton_of_some hordered hsince).mpr ?_) horderly, fun _ _ => ?_⟩
          · obtain ⟨last, history, rfl⟩ := List.exists_cons_of_ne_nil hne
            have hlast := ((shown_ton_of_some hordered.tail hstart).mp hshown).1
            have hle := hordered.le List.mem_cons_self
            dsimp only at hcount hle ⊢
            exact ⟨hlast.trans (iff_of_false (by omega) (by omega)), by omega⟩
          · exact hsince.trans (if_pos hedge).symm

/-! ### `FB_TOF` -/

/-- The flags of a `FB_TOF` belong to its history, once `IN` has been true. -/
def TOF.Linked (m : TOF) (history : List TimerRequest) : Prop :=
  history.any (·.varIN) → m.notFirstRisingEdge = true ∧
    sinceFalling history = if m.fallingEdge then some m.start else none

theorem shown_tof_of_none (h : sinceFalling history = none) :
    tof.Shown varPT v history ↔
      (v.varQ = true ↔ ∃ last ∈ history.head?, last.varIN) ∧ v.varET.toInt = 0 := by
  have hq : tof.Q varPT history ↔ ∃ last ∈ history.head?, last.varIN := by
    refine or_iff_left ?_
    rintro ⟨start, hstart, -⟩
    rw [h] at hstart
    exact absurd hstart nofun
  have het : tof.ET varPT history = 0 := et_of_none (t := tof) h
  rw [← hq, ← het]
  exact ⟨fun hshown => ⟨hshown.varQ, hshown.varET⟩, fun hshown => ⟨hshown.1, hshown.2⟩⟩

theorem shown_tof_of_some {start : BitVec 64}
    (h : sinceFalling (request :: history) = some start) :
    tof.Shown varPT v (request :: history) ↔
      (v.varQ = true ↔ request.now.toInt - start.toInt < varPT.toInt) ∧
        v.varET.toInt = min varPT.toInt (request.now.toInt - start.toInt) := by
  have hin : ¬request.varIN := by
    intro hin
    rw [sinceFalling_cons, if_neg fun hand => hand.1 hin] at h
    exact absurd h nofun
  have hq : tof.Q varPT (request :: history) ↔
      request.now.toInt - start.toInt < varPT.toInt := by
    refine (or_iff_right ?_).trans ?_
    · rintro ⟨last, hlast, htrue⟩
      obtain rfl : request = last := Option.some.inj hlast
      exact hin htrue
    · rw [h]
      simp [elapsed]
  have het : tof.ET varPT (request :: history) =
      min varPT.toInt (request.now.toInt - start.toInt) := et_of_since (t := tof) h
  rw [← hq, ← het]
  exact ⟨fun hshown => ⟨hshown.varQ, hshown.varET⟩, fun hshown => ⟨hshown.1, hshown.2⟩⟩

/-- Where a `FB_TOF` is not counting, although `IN` has been true, it is still so. -/
theorem exists_head_of_sinceFalling (hany : history.any (·.varIN) = true)
    (h : sinceFalling history = none) : ∃ last ∈ history.head?, last.varIN := by
  cases history with
  | nil => exact absurd hany Bool.false_ne_true
  | cons last history =>
    refine ⟨last, rfl, ?_⟩
    rw [sinceFalling_cons] at h
    split at h
    · exact absurd h nofun
    · rename_i hnot
      by_contra hin
      rw [List.any_cons, Bool.or_eq_true, or_iff_right hin] at hany
      exact hnot ⟨hin, hany⟩

/-- A `FB_TOF` that is counting. -/
theorem TOF.executeEvent_counting {m : TOF} (h : m.notFirstRisingEdge = true)
    (hedge : m.fallingEdge = true) (now : BitVec 64) :
    m.executeEvent now { v with varIN := false, varPT := varPT } =
      if varPT.toInt ≤ (now - m.start).toInt then
        ({ m with count := now - m.start },
          { v with varIN := false, varPT := varPT, varQ := false, varET := varPT })
      else
        ({ m with count := now - m.start },
          { v with varIN := false, varPT := varPT, varET := now - m.start }) := by
  rw [executeEvent, if_neg (by simp), if_pos h, if_neg (by simp [hedge])]

/-- A `REQ` to a `FB_TOF` for which `IN` has never been true. -/
theorem TOF.executeEvent_of_never (hPT : 0 < varPT.toInt) {m : TOF} {now : BitVec 64}
    (hshown : tof.Shown varPT v history) (hany : history.any (·.varIN) = false) :
    tof.Shown varPT (m.executeEvent now { v with varIN := false, varPT := varPT }).2
        (⟨false, now⟩ :: history) ↔ m.Orderly ⟨false, now⟩ history := by
  have hnone : sinceFalling history = none := by
    rw [sinceFalling, if_neg (by simp [hany])]
  have hsince : sinceFalling (⟨false, now⟩ :: history) = none := by
    rw [sinceFalling_cons, if_neg (by simp [hany])]
  have hhead : ¬∃ last ∈ history.head?, last.varIN := by
    rintro ⟨last, hlast, htrue⟩
    exact Bool.eq_false_iff.mp hany
      (List.any_eq_true.mpr ⟨last, List.mem_of_mem_head? hlast, htrue⟩)
  obtain ⟨hq, het⟩ := (shown_tof_of_none hnone).mp hshown
  rw [iff_false_right hhead] at hq
  have hnever : ¬∃ last ∈ (⟨false, now⟩ :: history : List TimerRequest).head?, last.varIN := by
    simp
  rw [shown_tof_of_none hsince, iff_false_right hnever]
  cases hfirst : m.notFirstRisingEdge with
  | false =>
    rw [executeEvent, if_neg (by simp), if_neg (by simp [hfirst])]
    exact iff_of_true ⟨hq, het⟩ fun _ _ h => absurd (hfirst.symm.trans h) Bool.false_ne_true
  | true =>
    cases hedge : m.fallingEdge with
    | false =>
      rw [executeEvent, if_neg (by simp), if_pos hfirst, if_pos (by simp [hedge])]
      exact iff_of_true ⟨hq, het⟩ fun _ _ _ h => absurd (hedge.symm.trans h) Bool.false_ne_true
    | true =>
      have hstale : m.Orderly ⟨false, now⟩ history ↔ (now - m.start).toInt = 0 := by
        rw [sub_eq_zero_iff]
        exact ⟨fun h => h Bool.false_ne_true (Bool.eq_false_iff.mp hany) hfirst hedge,
          fun h _ _ _ _ => h⟩
      rw [TOF.executeEvent_counting hfirst hedge, hstale]
      split
      · exact iff_of_false (fun h => by have := h.2; dsimp only at this; omega) (by omega)
      · exact and_iff_right hq

/-- **A `REQ` to a `FB_TOF`.** -/
theorem TOF.executeEvent_spec (hPT : 0 < varPT.toInt) {m : TOF}
    (hshown : tof.Shown varPT v history) (hlinked : m.Linked history)
    (hordered : Ordered (request :: history)) :
    (tof.Shown varPT
        (m.executeEvent request.now { v with varIN := request.varIN, varPT := varPT }).2
        (request :: history) ↔ m.Orderly request history) ∧
      (m.Orderly request history →
        (m.executeEvent request.now { v with varIN := request.varIN, varPT := varPT }).1.Linked
          (request :: history)) := by
  have hcons := @sinceFalling_cons request history
  obtain ⟨varIN, now⟩ := request
  cases varIN with
  | true =>
    rw [if_neg (by simp)] at hcons
    refine ⟨iff_of_true ((shown_tof_of_none hcons).mpr ?_) fun h => absurd rfl h,
      fun _ _ => ⟨rfl, hcons⟩⟩
    exact ⟨iff_of_true rfl ⟨_, rfl, rfl⟩, rfl⟩
  | false =>
    dsimp only at hcons ⊢
    cases hany : history.any (·.varIN) with
    | false =>
      refine ⟨TOF.executeEvent_of_never hPT hshown hany, fun _ htrue => ?_⟩
      rw [List.any_cons, hany] at htrue
      exact absurd htrue Bool.false_ne_true
    | true =>
      obtain ⟨hfirst, hlinked⟩ := hlinked hany
      rw [if_pos ⟨Bool.false_ne_true, hany⟩] at hcons
      have horderly : m.Orderly ⟨false, now⟩ history := fun _ h => absurd hany h
      cases hedge : m.fallingEdge with
      | false =>
        have hnone : sinceFalling history = none := by
          rw [hlinked, hedge]
          rfl
        have hsince : sinceFalling (⟨false, now⟩ :: history) = some now := by
          rw [hcons, hnone]
          rfl
        obtain ⟨hq, het⟩ := (shown_tof_of_none hnone).mp hshown
        have hhead := exists_head_of_sinceFalling hany hnone
        have hexecute : m.executeEvent now { v with varIN := false, varPT := varPT } =
            ({ m with fallingEdge := true, start := now },
              { v with varIN := false, varPT := varPT }) := by
          rw [executeEvent, if_neg (by simp), if_pos hfirst, if_pos (by simp [hedge])]
        rw [hexecute]
        refine ⟨iff_of_true ((shown_tof_of_some hsince).mpr ?_) horderly,
          fun _ _ => ⟨hfirst, hsince⟩⟩
        dsimp only
        exact ⟨hq.trans (iff_of_true hhead (by omega)), by omega⟩
      | true =>
        have hstart : sinceFalling history = some m.start := by
          rw [hlinked, hedge]
          rfl
        have hsince : sinceFalling (⟨false, now⟩ :: history) = some m.start := by
          rw [hcons, hstart]
          rfl
        obtain ⟨earlier, hmem, hnow⟩ := exists_of_sinceFalling hstart
        have hcount := toInt_sub (hordered.tail.nonneg earlier hmem) (hordered.le hmem)
        rw [hnow] at hcount
        have hlinked' : sinceFalling (⟨false, now⟩ :: history) =
            if m.fallingEdge then some m.start else none := hsince.trans (if_pos hedge).symm
        rw [TOF.executeEvent_counting hfirst hedge]
        split
        · refine ⟨iff_of_true ((shown_tof_of_some hsince).mpr ?_) horderly,
            fun _ _ => ⟨hfirst, hlinked'⟩⟩
          dsimp only at hcount ⊢
          exact ⟨iff_of_false Bool.false_ne_true (by omega), by omega⟩
        · refine ⟨iff_of_true ((shown_tof_of_some hsince).mpr ?_) horderly,
            fun _ _ => ⟨hfirst, hlinked'⟩⟩
          obtain ⟨last, history, rfl⟩ := List.exists_cons_of_ne_nil (List.ne_nil_of_mem hmem)
          have hlast := ((shown_tof_of_some hstart).mp hshown).1
          have hle := hordered.le List.mem_cons_self
          dsimp only at hcount hle ⊢
          exact ⟨hlast.trans (iff_of_true (by omega) (by omega)), by omega⟩

/-! ### `FB_TP` -/

/-- The flag of a `FB_TP` belongs to its history, once there is a pulse. The pulse has not
ended. -/
def TP.Linked (varPT : BitVec 64) (m : TP) (history : List TimerRequest) : Prop :=
  ∀ start running, pulse varPT history = some (start, running) →
    running = true ∧ m.edgeFlag = true ∧ m.start = start

theorem shown_tp_of_none (h : pulse varPT history = none) :
    tp.Shown varPT v history ↔ v.varQ = false ∧ v.varET.toInt = 0 := by
  have hnever : ¬tp.Q varPT history := by
    rintro ⟨start, hstart⟩
    rw [h] at hstart
    exact absurd hstart nofun
  have hsince : tp.since varPT history = none := by
    rw [since, h]
    rfl
  constructor
  · rintro ⟨hq, het⟩
    exact ⟨Bool.eq_false_iff.mpr fun htrue => hnever (hq.mp htrue), het.trans (et_of_none hsince)⟩
  · rintro ⟨hq, het⟩
    exact ⟨iff_of_false (Bool.eq_false_iff.mp hq) hnever, het.trans (et_of_none hsince).symm⟩

theorem shown_tp_of_some {start : BitVec 64} {running : Bool}
    (h : pulse varPT (request :: history) = some (start, running)) :
    tp.Shown varPT v (request :: history) ↔
      v.varQ = running ∧ v.varET.toInt = min varPT.toInt (request.now.toInt - start.toInt) := by
  have hq : tp.Q varPT (request :: history) ↔ running = true := by
    rw [Q, h]
    simp
  have hsince : tp.since varPT (request :: history) = some start := by
    rw [since, h]
    rfl
  rw [Bool.eq_iff_iff, ← hq, ← et_of_since hsince]
  exact ⟨fun hshown => ⟨hshown.varQ, hshown.varET⟩, fun hshown => ⟨hshown.1, hshown.2⟩⟩

/-- Less than `PT` has elapsed of a running pulse. -/
theorem elapsed_lt_of_pulse (hPT : 0 < varPT.toInt) {start : BitVec 64}
    (h : pulse varPT (request :: history) = some (start, true)) :
    request.now.toInt - start.toInt < varPT.toInt := by
  rw [pulse] at h
  split at h
  · obtain ⟨rfl, hrunning⟩ := Prod.mk.inj (Option.some.inj h)
    exact of_decide_eq_true hrunning
  · rename_i hlast
    split at h
    · obtain ⟨rfl, -⟩ := Prod.mk.inj (Option.some.inj h)
      omega
    · exact absurd h (hlast start)

/-- A `FB_TP` during a pulse. -/
theorem TP.executeEvent_running {m : TP} (h : m.edgeFlag = true)
    (hless : v.varET.toInt < varPT.toInt) (now : BitVec 64) (varIN : Bool) :
    m.executeEvent now { v with varIN := varIN, varPT := varPT } =
      (m, { v with varIN := varIN, varPT := varPT, varET := now - m.start }) := by
  rw [executeEvent, if_pos h, if_neg (by dsimp only; omega)]

/-- **A `REQ` to a `FB_TP`.** -/
theorem TP.executeEvent_spec (hPT : 0 < varPT.toInt) {m : TP}
    (hshown : tp.Shown varPT v history) (hlinked : m.Linked varPT history)
    (hordered : Ordered (request :: history)) :
    (tp.Shown varPT
        (m.executeEvent request.now { v with varIN := request.varIN, varPT := varPT }).2
        (request :: history) ↔ m.Orderly varPT v request) ∧
      (m.Orderly varPT v request →
        (m.executeEvent request.now { v with varIN := request.varIN, varPT := varPT }).1.Linked
          varPT (request :: history)) := by
  rcases hpulse : pulse varPT history with _ | ⟨start, running⟩
  · have hcons := @pulse_cons_of_none request history varPT hpulse
    obtain ⟨hq, het⟩ := (shown_tp_of_none hpulse).mp hshown
    cases hedge : m.edgeFlag with
    | true =>
      have hstale : m.Orderly varPT v request ↔
          ¬request.varIN ∧ (request.now - m.start).toInt = 0 := by
        rw [sub_eq_zero_iff, TP.Orderly, if_neg (Bool.eq_false_iff.mp hq)]
        exact ⟨fun h => h hedge, fun h _ => h⟩
      rw [TP.executeEvent_running hedge (by omega), hstale]
      split at hcons
      · rename_i hin
        refine ⟨iff_of_false (fun h => ?_) fun h => h.1 hin, fun h => absurd hin h.1⟩
        exact Bool.false_ne_true (hq.symm.trans ((shown_tp_of_some hcons).mp h).1)
      · rename_i hin
        refine ⟨(shown_tp_of_none hcons).trans ?_, fun _ start running h => ?_⟩
        · exact (and_iff_right hq).trans (and_iff_right hin).symm
        · rw [hcons] at h
          exact absurd h nofun
    | false =>
      have horderly : m.Orderly varPT v request := fun h =>
        absurd (hedge.symm.trans h) Bool.false_ne_true
      have hzero : v.varET = 0 := BitVec.toInt_inj.mp (het.trans BitVec.toInt_zero.symm)
      rw [executeEvent, if_neg (by simp [hedge])]
      dsimp only
      split at hcons
      · rename_i hin
        rw [if_pos ⟨hin, hzero⟩]
        refine ⟨iff_of_true ((shown_tp_of_some hcons).mpr ⟨rfl, ?_⟩) horderly,
          fun _ start running h => ?_⟩
        · dsimp only
          omega
        · obtain ⟨rfl, rfl⟩ := Prod.mk.inj (Option.some.inj (hcons.symm.trans h))
          exact ⟨rfl, rfl, rfl⟩
      · rename_i hin
        rw [if_neg fun h => hin h.1, if_neg fun h => hin h.1]
        refine ⟨iff_of_true ((shown_tp_of_none hcons).mpr ⟨hq, het⟩) horderly,
          fun _ start running h => ?_⟩
        rw [hcons] at h
        exact absurd h nofun
  · obtain ⟨rfl, hedge, hstart⟩ := hlinked start running hpulse
    obtain ⟨earlier, hmem, hnow⟩ := exists_of_pulse hpulse
    have hcount := toInt_sub (hordered.tail.nonneg earlier hmem) (hordered.le hmem)
    have hcons := @pulse_cons_of_running request history start varPT hpulse
    obtain ⟨last, history, rfl⟩ := List.exists_cons_of_ne_nil (List.ne_nil_of_mem hmem)
    have hlast := elapsed_lt_of_pulse hPT hpulse
    obtain ⟨hq, het⟩ := (shown_tp_of_some hpulse).mp hshown
    have horderly : m.Orderly varPT v request ↔
        request.now.toInt - start.toInt < varPT.toInt := by
      rw [TP.Orderly, if_pos hq, hstart]
      exact ⟨fun h => h hedge, fun h _ => h⟩
    rw [hnow] at hcount
    rw [TP.executeEvent_running hedge (by omega), horderly, shown_tp_of_some hcons, hstart]
    dsimp only
    refine ⟨?_, fun hless start' running h => ?_⟩
    · rw [hq, eq_comm, decide_eq_true_iff]
      refine and_iff_left_of_imp fun hless => ?_
      omega
    · obtain ⟨rfl, rfl⟩ := Prod.mk.inj (Option.some.inj (hcons.symm.trans h))
      exact ⟨decide_eq_true hless, hedge, hstart⟩

end

/-! ### Runs -/

/-- The private members of a timer belong to its history. -/
def TimerType.Linked (varPT : BitVec 64) (history : List TimerRequest) :
    (t : TimerType) → t.Members → Prop
  | ton, m => TON.Linked m history
  | tof, m => TOF.Linked m history
  | tp, m => TP.Linked varPT m history

/-- Without a history all private members are possible. -/
theorem TimerType.linked_nil (varPT : BitVec 64) (t : TimerType) (m : t.Members) :
    t.Linked varPT [] m := by
  cases t with
  | ton => exact fun h => absurd rfl h
  | tof => exact fun h => absurd h Bool.false_ne_true
  | tp => exact fun _ _ h => absurd h nofun

theorem TimerType.shown_initial (varPT : BitVec 64) (t : TimerType) :
    t.Shown varPT .initial [] := by
  cases t with
  | ton => exact (shown_ton_of_none rfl).mpr ⟨rfl, rfl⟩
  | tof => exact (shown_tof_of_none rfl).mpr ⟨iff_of_false Bool.false_ne_true (by simp), rfl⟩
  | tp => exact (shown_tp_of_none rfl).mpr ⟨rfl, rfl⟩

/-- **A `REQ` to a timer** is answered as it should be exactly if the timer can cope with it, and
then its private members still belong to its history. -/
theorem TimerType.executeEvent_spec {varPT : BitVec 64} (hPT : 0 < varPT.toInt) (t : TimerType)
    {m : t.Members} {v : TimerPorts} {request : TimerRequest} {history : List TimerRequest}
    (hshown : t.Shown varPT v history) (hlinked : t.Linked varPT history m)
    (hordered : Ordered (request :: history)) :
    (t.Shown varPT
        (t.executeEvent request.now m { v with varIN := request.varIN, varPT := varPT }).2
        (request :: history) ↔ t.Orderly varPT v request history m) ∧
      (t.Orderly varPT v request history m →
        t.Linked varPT (request :: history)
          (t.executeEvent request.now m { v with varIN := request.varIN, varPT := varPT }).1) := by
  cases t with
  | ton => exact TON.executeEvent_spec hPT hshown hlinked hordered
  | tof => exact TOF.executeEvent_spec hPT hshown hlinked hordered
  | tp => exact TP.executeEvent_spec hPT hshown hlinked hordered

namespace TimerFB

variable {t : TimerType} {varPT : BitVec 64} {s : TimerFB t}

/-- The states that are as they should be. -/
structure Good (varPT : BitVec 64) (s : TimerFB t) : Prop where
  shows : s.Shows varPT
  linked : t.Linked varPT s.history s.members
  ordered : Ordered s.history

/-- A `REQ` does not come before those of the history. -/
def InTime (s : TimerFB t) : TimerStep → Prop
  | .req request => Ordered (request :: s.history)
  | .changeExecutionState _ => True

/-- A state in which the outputs and the members are those of another one, or in which there is
no history. -/
theorem Good.changeExecutionState (h : s.Good varPT) (paCommand : ExecutionCmd) :
    (s.next varPT (.changeExecutionState paCommand)).Good varPT := by
  rw [next]
  split
  · exact h
  · split
    · exact ⟨TimerType.shown_initial varPT t, TimerType.linked_nil varPT t _,
        ⟨List.Pairwise.nil, fun _ hmem => absurd hmem List.not_mem_nil⟩⟩
    · exact ⟨h.shows, h.linked, h.ordered⟩

/-- **One step of a timer.** -/
theorem Good.next_iff (hPT : 0 < varPT.toInt) (h : s.Good varPT) {step : TimerStep}
    (htime : s.InTime step) :
    ((s.next varPT step).Shows varPT ↔ s.Orderly varPT step) ∧
      ((s.next varPT step).Shows varPT → (s.next varPT step).Good varPT) := by
  cases step with
  | changeExecutionState paCommand =>
    have hgood := h.changeExecutionState paCommand
    exact ⟨iff_of_true hgood.shows trivial, fun _ => hgood⟩
  | req request =>
    rw [Orderly, next]
    split
    · rename_i hrunning
      obtain ⟨hiff, hlinked⟩ := t.executeEvent_spec hPT h.shows h.linked htime
      rw [forall_prop_of_true hrunning]
      exact ⟨hiff, fun hshows => ⟨hshows, hlinked (hiff.mp hshows), htime⟩⟩
    · rename_i hnot
      exact ⟨iff_of_true h.shows fun hrunning => absurd hrunning hnot, fun _ => h⟩

/-- With a monotonic clock every `REQ` of a run comes in time. -/
theorem each_inTime {steps : List TimerStep} (hclock : Monotonic steps)
    (hordered : Ordered s.history)
    (hlater : ∀ earlier ∈ s.history, ∀ now ∈ steps.filterMap TimerStep.time?,
      earlier.now.toInt ≤ now.toInt) :
    Runs.Each (next varPT) InTime s steps := by
  induction steps generalizing s with
  | nil => exact Runs.each_nil InTime s
  | cons step steps ih =>
    cases step with
    | changeExecutionState paCommand =>
      have hhistory : (s.next varPT (.changeExecutionState paCommand)).history = s.history ∨
          (s.next varPT (.changeExecutionState paCommand)).history = [] := by
        rw [next]
        split
        · exact .inl rfl
        · split
          · exact .inr rfl
          · exact .inl rfl
      refine Runs.each_cons_iff.mpr ⟨trivial, ih ⟨hclock.pairwise, hclock.nonneg⟩ ?_ ?_⟩
      · rcases hhistory with heq | heq
        · exact heq ▸ hordered
        · exact heq ▸ ⟨List.Pairwise.nil, fun _ hmem => absurd hmem List.not_mem_nil⟩
      · rcases hhistory with heq | heq
        · exact heq ▸ hlater
        · exact heq ▸ fun _ hmem => absurd hmem List.not_mem_nil
    | req request =>
      obtain ⟨hfirst, hpairwise⟩ := List.pairwise_cons.mp hclock.pairwise
      obtain ⟨hnonneg, hnonneg'⟩ := List.forall_mem_cons.mp hclock.nonneg
      have htime : Ordered (request :: s.history) :=
        ⟨List.pairwise_cons.mpr
            ⟨fun earlier hmem => hlater earlier hmem _ List.mem_cons_self, hordered.pairwise⟩,
          List.forall_mem_cons.mpr ⟨hnonneg, hordered.nonneg⟩⟩
      refine Runs.each_cons_iff.mpr ⟨htime, ih ⟨hpairwise, hnonneg'⟩ ?_ ?_⟩
      · rw [next]
        split
        · exact htime
        · exact hordered
      · have hlater' : ∀ earlier ∈ s.history, ∀ now ∈ steps.filterMap TimerStep.time?,
            earlier.now.toInt ≤ now.toInt := fun earlier hmem now hnow =>
          hlater earlier hmem now (List.mem_cons_of_mem _ hnow)
        rw [next]
        split
        · exact List.forall_mem_cons.mpr ⟨hfirst, hlater'⟩
        · exact hlater'

/-- **A timer shows what it should behind every step of a run** exactly if all of its steps are in
order, whatever its private members are in the beginning. -/
theorem shows_iff (hPT : 0 < varPT.toInt) (members : t.Members) {steps : List TimerStep}
    (hclock : Monotonic steps) :
    Runs.Each (next varPT) (fun s step => (s.next varPT step).Shows varPT) (initial members)
        steps ↔
      Runs.Each (next varPT) (Orderly varPT) (initial members) steps := by
  have hordered : Ordered [] := ⟨List.Pairwise.nil, fun _ hmem => absurd hmem List.not_mem_nil⟩
  have hgood : (initial members).Good varPT :=
    ⟨t.shown_initial varPT, t.linked_nil varPT members, hordered⟩
  have htimes : Runs.Each (next varPT) InTime (initial members) steps :=
    each_inTime hclock hordered fun _ hmem => absurd hmem List.not_mem_nil
  have hcongr := @Runs.each_congr _ _ (next varPT) (Good varPT)
    (fun s step => s.InTime step ∧ (s.next varPT step).Shows varPT)
    (fun s step => s.InTime step ∧ s.Orderly varPT step)
    (fun s step h hmeets => (h.next_iff hPT hmeets.1).2 hmeets.2)
    (fun s step h => and_congr_right fun htime => (h.next_iff hPT htime).1) (initial members) hgood
    steps
  rwa [Runs.each_and_iff, Runs.each_and_iff, and_iff_right htimes, and_iff_right htimes] at hcongr

/-- A `FB_TON` whose flag is not set in the beginning, for which `IN` becomes true. -/
theorem shows_onDelay :
    Runs.Each (next 5) (fun s step => (s.next 5 step).Shows 5)
      (initial (⟨false, 0, 0⟩ : TON) : TimerFB .ton)
      [.changeExecutionState .start, .req ⟨true, 10⟩, .req ⟨true, 16⟩] := by
  have hclock : Monotonic [.changeExecutionState .start, .req ⟨true, 10⟩, .req ⟨true, 16⟩] :=
    ⟨List.pairwise_pair.mpr (by decide : (10 : BitVec 64).toInt ≤ (16 : BitVec 64).toInt),
      List.forall_mem_cons.mpr ⟨(by decide : 0 ≤ (10 : BitVec 64).toInt),
        List.forall_mem_singleton.mpr (by decide : 0 ≤ (16 : BitVec 64).toInt)⟩⟩
  refine (shows_iff (by decide) _ hclock).mpr ?_
  refine Runs.each_cons_iff.mpr ⟨trivial, Runs.each_cons_iff.mpr ⟨?_, Runs.each_cons_iff.mpr
    ⟨?_, Runs.each_nil _ _⟩⟩⟩
  · exact fun _ _ _ hedge => absurd hedge Bool.false_ne_true
  · exact fun _ _ hnil => absurd hnil (List.cons_ne_nil _ _)

/-- The pulse of a `FB_TP` is still there when it should have ended. -/
theorem not_shows_pulse :
    ¬Runs.Each (next 5) (fun s step => (s.next 5 step).Shows 5)
      (initial (⟨false, 0⟩ : TP) : TimerFB .tp)
      [.changeExecutionState .start, .req ⟨true, 10⟩, .req ⟨true, 16⟩] := by
  intro h
  obtain ⟨start, hpulse⟩ := (h 2 _ rfl).varQ.mp rfl
  have hended : pulse 5 [⟨true, 16⟩, ⟨true, 10⟩] = some (10, false) := by decide
  exact absurd (congrArg Prod.snd (Option.some.inj (hended.symm.trans hpulse))) Bool.false_ne_true

end TimerFB

end Forte
