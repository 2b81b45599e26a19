import Mathlib.Algebra.Order.Group.Nat
import Mathlib.Data.List.Perm.Basic
import Mathlib.Tactic.Ring
import Forte.Execution.TimerHandler

/-!
# When the timer handler fires

What a registration asks for is a set of ticks (`Forte.Registration.fires`): the one that is an
interval after the registration, or every multiple of the interval. The timer handler meets
this tick by tick. Behind each tick its two lists hold, in some order, one entry for every
registration that is still to fire, with the next tick in which it is
(`Forte.TimerHandler.Pending`), and so what is started in the next one is what fires then –
each registration by itself, whatever else is in the lists.

Intervals are converted to 32 bits and times are in 64 bits. The `TIME` type has intervals of
more than `2 ^ 32` ticks, which are cut off: one of exactly `2 ^ 32` ticks is due at once, and
its entry is taken for a one-shot entry if it is periodic.
-/

namespace Forte

/-! ### Registrations -/

/-- **What is asked of the timer handler**: to start a function block an interval after a
tick, or whenever the interval has passed again. -/
structure Registration (FB : Type) where
  timedFB : FB
  /-- The number of ticks that had begun. -/
  tick : ℕ
  /-- The interval in ticks, which is not zero. -/
  interval : ℕ
  periodic : Bool
  deriving DecidableEq

namespace Registration

variable {FB : Type} (r : Registration FB)

/-- The ticks in which the function block is to be started. -/
def fires (n : ℕ) : Bool :=
  if r.periodic then r.tick < n && (n - r.tick) % r.interval = 0 else n = r.tick + r.interval

/-- The next of these ticks, after the tick `c`. -/
def next (c : ℕ) : Option ℕ :=
  if r.periodic then some (r.tick + ((c - r.tick) / r.interval + 1) * r.interval)
  else if c < r.tick + r.interval then some (r.tick + r.interval) else none

variable {r}

/-- A number is a multiple exactly if the next multiple behind its predecessor is this one. -/
theorem dvd_succ_iff {i : ℕ} (m : ℕ) : i ∣ m + 1 ↔ (m / i + 1) * i = m + 1 := by
  constructor
  · intro hdvd
    have hdiv : (m + 1) / i = m / i + 1 := by rw [Nat.succ_div, if_pos hdvd]
    rw [← hdiv, Nat.div_mul_cancel hdvd]
  · intro heq
    exact ⟨m / i + 1, by rw [Nat.mul_comm, heq]⟩

theorem lt_of_next (hpos : 0 < r.interval) {c n : ℕ} (h : r.next c = some n) : c < n := by
  rw [next] at h
  split at h
  · obtain rfl := Option.some.inj h
    have hdiv := Nat.div_add_mod (c - r.tick) r.interval
    have hmod := Nat.mod_lt (c - r.tick) hpos
    rw [Nat.add_mul, Nat.one_mul, Nat.mul_comm]
    omega
  · split at h
    · rename_i hlt
      exact Option.some.inj h ▸ hlt
    · exact absurd h nofun

/-- A registration fires in the next tick exactly if this is the next of its ticks. -/
theorem fires_succ_iff (hpos : 0 < r.interval) (c : ℕ) :
    r.fires (c + 1) = true ↔ r.next c = some (c + 1) := by
  rw [fires, next]
  split
  · simp only [Bool.and_eq_true, decide_eq_true_eq, Option.some.injEq]
    rcases Nat.lt_or_ge c r.tick with hlt | hle
    · rw [Nat.sub_eq_zero_of_le hlt.le, Nat.zero_div]
      omega
    · obtain ⟨m, rfl⟩ := Nat.exists_eq_add_of_le hle
      have hsub : r.tick + m + 1 - r.tick = m + 1 := by omega
      rw [Nat.add_sub_cancel_left, hsub, ← Nat.dvd_iff_mod_eq_zero, dvd_succ_iff]
      omega
  · simp only [decide_eq_true_eq]
    constructor
    · intro heq
      rw [if_pos (by omega), heq]
    · intro h
      split at h
      · exact (Option.some.inj h).symm
      · exact absurd h nofun

/-- **The next tick after another one**: the same, until it has come. -/
theorem next_succ (hpos : 0 < r.interval) (c : ℕ) :
    r.next (c + 1) =
      if r.next c = some (c + 1) then
        if r.periodic then some (c + 1 + r.interval) else none
      else r.next c := by
  rcases Bool.eq_false_or_eq_true r.periodic with hperiodic | honce
  · simp only [next, hperiodic, if_true, Option.some.injEq]
    rcases Nat.lt_or_ge c r.tick with hlt | hle
    · rw [Nat.sub_eq_zero_of_le hlt.le, Nat.sub_eq_zero_of_le hlt, Nat.zero_div, if_neg (by omega)]
    · obtain ⟨m, rfl⟩ := Nat.exists_eq_add_of_le hle
      have hsub : r.tick + m + 1 - r.tick = m + 1 := by omega
      have hiff : r.tick + (m / r.interval + 1) * r.interval = r.tick + m + 1 ↔
          r.interval ∣ m + 1 := by
        rw [dvd_succ_iff]
        omega
      rw [Nat.add_sub_cancel_left, hsub, Nat.succ_div]
      by_cases hdvd : r.interval ∣ m + 1
      · rw [if_pos hdvd, if_pos (hiff.mpr hdvd)]
        have := (dvd_succ_iff m).mp hdvd
        rw [Nat.add_mul (m / r.interval + 1), this, Nat.one_mul, Nat.add_assoc, Nat.add_assoc,
          Nat.add_assoc]
      · rw [if_neg hdvd, if_neg fun heq => hdvd (hiff.mp heq)]
  · simp only [next, honce, Bool.false_eq_true, if_false]
    by_cases hlt : c < r.tick + r.interval
    · rw [if_pos hlt]
      by_cases heq : r.tick + r.interval = c + 1
      · rw [if_neg (by omega), if_pos (congrArg some heq)]
      · rw [if_pos (by omega), if_neg fun h => heq (Option.some.inj h)]
    · rw [if_neg hlt, if_neg (by omega), if_neg nofun]

end Registration

namespace TimerHandler

variable {FB : Type} [DecidableEq FB]

/-- An interval in ticks, of which there is at least one. -/
def intervalInTicks (ticksPerSecond : ℤ) (timeInterval : BitVec 64) : ℕ :=
  max 1 (timeInterval.toInt.tdiv (forteTimeBaseUnitsPerSecond.tdiv ticksPerSecond)).toNat

/-- What a call asks for, if it is a registration. -/
def Call.registration (ticksPerSecond : ℤ) (tick : ℕ) : Call FB → List (Registration FB)
  | .registerOneShotTimedFB fb timeInterval =>
    [⟨fb, tick, intervalInTicks ticksPerSecond timeInterval, false⟩]
  | .registerPeriodicTimedFB fb timeInterval =>
    [⟨fb, tick, intervalInTicks ticksPerSecond timeInterval, true⟩]
  | .unregisterTimedFB _ => []
  | .nextTick => []

/-- The registrations of a run, each with the tick in which it is made. -/
def registrations (ticksPerSecond : ℤ) (s : TimerHandler FB) :
    List (Call FB) → List (Registration FB)
  | [] => []
  | call :: calls =>
    call.registration ticksPerSecond s.ticks ++
      registrations ticksPerSecond (s.step ticksPerSecond call) calls

/-- The number of ticks that are over. -/
def completed (s : TimerHandler FB) : ℕ := if s.ticking then s.ticks - 1 else s.ticks

/-- **The timer handler is exact**: the list is sorted, and in each tick that is over every
function block was started as often as registrations of it fired, and in no other tick. -/
structure Exact (registrations : List (Registration FB)) (s : TimerHandler FB) : Prop where
  sorted : s.Ordered
  started : ∀ n fb, s.started.count (n, fb) =
    if n ≤ s.completed then registrations.countP fun r => r.timedFB = fb ∧ r.fires n else 0

/-- **The numbers are large enough for a step**: an interval in ticks has 32 bits, and a time
64 bits. -/
def Fits (ticksPerSecond : ℤ) (s : TimerHandler FB) : Call FB → Prop
  | .registerOneShotTimedFB _ timeInterval =>
    intervalInTicks ticksPerSecond timeInterval < 2 ^ 32 ∧
      s.ticks + intervalInTicks ticksPerSecond timeInterval < 2 ^ 64
  | .registerPeriodicTimedFB _ timeInterval =>
    intervalInTicks ticksPerSecond timeInterval < 2 ^ 32 ∧
      s.ticks + intervalInTicks ticksPerSecond timeInterval < 2 ^ 64
  | .unregisterTimedFB _ => True
  | .nextTick =>
    if s.ticking then
      ∀ entry ∈ s.timedFBList ++ s.addFBList, entry.timeOut ≤ s.forteTime →
        s.ticks + entry.interval < 2 ^ 64
    else s.ticks + 1 < 2 ^ 64

instance (ticksPerSecond : ℤ) (s : TimerHandler FB) (call : Call FB) :
    Decidable (s.Fits ticksPerSecond call) :=
  match call with
  | .registerOneShotTimedFB _ _ => inferInstanceAs (Decidable (_ ∧ _))
  | .registerPeriodicTimedFB _ _ => inferInstanceAs (Decidable (_ ∧ _))
  | .unregisterTimedFB _ => inferInstanceAs (Decidable True)
  | .nextTick =>
    inferInstanceAs (Decidable (if s.ticking then
      ∀ entry ∈ s.timedFBList ++ s.addFBList, entry.timeOut ≤ s.forteTime →
        s.ticks + entry.interval < 2 ^ 64
      else s.ticks + 1 < 2 ^ 64))

/-- All steps of a run fit. -/
def RunFits (ticksPerSecond : ℤ) (s : TimerHandler FB) : List (Call FB) → Prop
  | [] => True
  | call :: calls =>
    s.Fits ticksPerSecond call ∧ RunFits ticksPerSecond (s.step ticksPerSecond call) calls

instance instDecidableRunFits (ticksPerSecond : ℤ) (s : TimerHandler FB)
    (calls : List (Call FB)) : Decidable (s.RunFits ticksPerSecond calls) :=
  match calls with
  | [] => inferInstanceAs (Decidable True)
  | call :: calls =>
    have := instDecidableRunFits ticksPerSecond (s.step ticksPerSecond call) calls
    inferInstanceAs (Decidable (_ ∧ _))

/-! ### What a tick does with the entries -/

/-- The entry that comes back into the list when one has been triggered. -/
def again (time : TickTime) (entry : TimedFBListEntry FB) : Option (TimedFBListEntry FB) :=
  if entry.interval ≠ oneShotIndicator then
    some { entry with timeOut := after time entry.interval }
  else none

/-- What a tick leaves of an entry. -/
def settle (time : TickTime) (entry : TimedFBListEntry FB) : Option (TimedFBListEntry FB) :=
  if entry.timeOut ≤ time then again time entry else some entry

section

variable {s : TimerHandler FB}

omit [DecidableEq FB] in
theorem perm_insert (entry : TimedFBListEntry FB) (l : List (TimedFBListEntry FB)) :
    (UpperBound.insert TimedFBListEntry.timeOut entry l).Perm (l ++ [entry]) := by
  have hsplit : UpperBound.upTo TimedFBListEntry.timeOut entry.timeOut l ++
      UpperBound.beyond TimedFBListEntry.timeOut entry.timeOut l = l :=
    List.takeWhile_append_dropWhile
  refine List.perm_middle.trans ?_
  rw [hsplit]
  exact (List.perm_append_singleton entry l).symm

/-- A list of entries has gone through a step: what stays of them is in the timed list, and
`due` of them were started. -/
structure Gone (s t : TimerHandler FB) (stays due : List (TimedFBListEntry FB)) : Prop where
  timed : t.timedFBList.Perm (s.timedFBList ++ stays)
  log : t.started = s.started ++ due.map fun entry => (s.ticks, entry.timedFB)
  frame : ∃ timed started, t = { s with timedFBList := timed, started := started }

omit [DecidableEq FB] in
theorem Gone.trans {t u : TimerHandler FB} {stays due stays' due' : List (TimedFBListEntry FB)}
    (h : Gone s t stays due) (h' : Gone t u stays' due') :
    Gone s u (stays ++ stays') (due ++ due') := by
  obtain ⟨timed, started, rfl⟩ := h.frame
  refine ⟨?_, ?_, ?_⟩
  · rw [← List.append_assoc]
    exact h'.timed.trans (h.timed.append_right stays')
  · rw [h'.log, h.log, List.map_append, List.append_assoc]
  · obtain ⟨timed', started', heq⟩ := h'.frame
    exact ⟨timed', started', heq⟩

omit [DecidableEq FB] in
theorem gone_triggerTimedFB (s : TimerHandler FB) (entry : TimedFBListEntry FB) :
    Gone s (s.triggerTimedFB entry) (again s.forteTime entry).toList
      ([entry].filter fun _ => true) := by
  have hframe := triggerTimedFB_frame s entry
  rw [triggerTimedFB] at hframe ⊢
  rw [again]
  split
  · rename_i hperiodic
    rw [if_pos hperiodic] at hframe
    exact ⟨perm_insert _ _, rfl, hframe⟩
  · rename_i honce
    rw [if_neg honce] at hframe
    refine ⟨?_, rfl, hframe⟩
    rw [Option.toList_none, List.append_nil]
    exact List.Perm.refl _

omit [DecidableEq FB] in
theorem gone_addPending (s : TimerHandler FB) (entry : TimedFBListEntry FB) :
    Gone s (s.addPending entry) (settle s.forteTime entry).toList
      ([entry].filter fun entry => entry.timeOut ≤ s.forteTime) := by
  rw [addPending, settle]
  split
  · rename_i hdue
    have hfilter : ([entry].filter fun entry => entry.timeOut ≤ s.forteTime) = [entry] :=
      List.filter_eq_self.mpr (by simpa using hdue)
    rw [hfilter]
    exact gone_triggerTimedFB s entry
  · rename_i hlater
    have hfilter : ([entry].filter fun entry => entry.timeOut ≤ s.forteTime) = [] :=
      List.filter_eq_nil_iff.mpr (by simpa using hlater)
    rw [hfilter]
    exact ⟨perm_insert _ _, (List.append_nil _).symm, _, _, rfl⟩

omit [DecidableEq FB] in
/-- **A list of entries goes through a step one by one**, at the same time. -/
theorem gone_foldl {f : TimerHandler FB → TimedFBListEntry FB → TimerHandler FB}
    (stays : TickTime → TimedFBListEntry FB → Option (TimedFBListEntry FB))
    (due : TickTime → TimedFBListEntry FB → Bool)
    (hf : ∀ s entry, Gone s (f s entry) (stays s.forteTime entry).toList
      ([entry].filter (due s.forteTime)))
    (s : TimerHandler FB) (l : List (TimedFBListEntry FB)) :
    Gone s (l.foldl f s) (l.filterMap (stays s.forteTime)) (l.filter (due s.forteTime)) := by
  induction l generalizing s with
  | nil =>
    refine ⟨?_, (List.append_nil _).symm, s.timedFBList, s.started, rfl⟩
    rw [List.filterMap_nil, List.append_nil]
    exact List.Perm.refl _
  | cons entry l ih =>
    have hhead := hf s entry
    have htail := ih (f s entry)
    have htime : (f s entry).forteTime = s.forteTime := by
      obtain ⟨timed, started, heq⟩ := hhead.frame
      rw [heq]
    rw [htime] at htail
    have hstays : (entry :: l).filterMap (stays s.forteTime) =
        (stays s.forteTime entry).toList ++ l.filterMap (stays s.forteTime) := by
      rw [List.filterMap_cons]
      cases stays s.forteTime entry with
      | none => rfl
      | some _ => rfl
    have hdue : (entry :: l).filter (due s.forteTime) =
        [entry].filter (due s.forteTime) ++ l.filter (due s.forteTime) :=
      @List.filter_append _ _ [entry] l
    rw [List.foldl_cons, hstays, hdue]
    exact hhead.trans htail

omit [DecidableEq FB] in
/-- The entries that are not due stay, and of those that are due the periodic ones come back. -/
theorem perm_settle (time : TickTime) (l : List (TimedFBListEntry FB)) :
    ((l.filter fun entry => time < entry.timeOut) ++
      (l.filter fun entry => entry.timeOut ≤ time).filterMap (again time)).Perm
        (l.filterMap (settle time)) := by
  have hlater : (l.filter fun entry => time < entry.timeOut) =
      (l.filter fun entry => time < entry.timeOut).filterMap (settle time) := by
    rw [List.filterMap_congr (g := some), List.filterMap_some]
    intro entry hmem
    exact if_neg (not_le_of_gt (of_decide_eq_true (List.mem_filter.mp hmem).2))
  have hdue : (l.filter fun entry => entry.timeOut ≤ time).filterMap (again time) =
      (l.filter fun entry => entry.timeOut ≤ time).filterMap (settle time) := by
    refine List.filterMap_congr fun entry hmem => ?_
    exact (if_pos (of_decide_eq_true (List.mem_filter.mp hmem).2)).symm
  have hnot : (l.filter fun entry => entry.timeOut ≤ time) =
      l.filter fun entry => !decide (time < entry.timeOut) :=
    List.filter_congr fun entry _ => by
      rw [← decide_not]
      exact decide_eq_decide.mpr not_lt.symm
  rw [hdue, hnot, hlater, ← List.filterMap_append]
  exact (List.filter_append_perm _ l).filterMap _

omit [DecidableEq FB] in
/-- **What `processTimedFBList` does**: the entries that are due are started, and the periodic ones
of them come back. -/
theorem gone_processTimedFBList (h : s.Ordered) :
    Gone { s with timedFBList := s.timedFBList.filter fun entry => s.forteTime < entry.timeOut }
      s.processTimedFBList
      ((s.timedFBList.filter fun entry => entry.timeOut ≤ s.forteTime).filterMap
        (again s.forteTime))
      (s.timedFBList.filter fun entry => entry.timeOut ≤ s.forteTime) := by
  have herase : s.eraseDue = { s with
      timedFBList := s.timedFBList.filter fun entry => s.forteTime < entry.timeOut } :=
    congrArg (fun timed => { s with timedFBList := timed }) (UpperBound.beyond_eq h _)
  have hall : ∀ l : List (TimedFBListEntry FB), l.filter (fun _ => true) = l :=
    fun l => List.filter_eq_self.mpr fun _ _ => rfl
  have hgone := gone_foldl again (fun _ _ => true) gone_triggerTimedFB s.eraseDue
    (s.timedFBList.filter fun entry => entry.timeOut ≤ s.forteTime)
  rw [hall] at hgone
  rw [processTimedFBList, UpperBound.upTo_eq h s.forteTime, ← herase]
  exact hgone

omit [DecidableEq FB] in
theorem processAddList_frame (s : TimerHandler FB) :
    ∃ timed started, s.processAddList =
      { s with timedFBList := timed, started := started, addFBList := [] } := by
  obtain ⟨timed, started, heq⟩ := foldl_frame addPending_frame s s.addFBList
  exact ⟨timed, started, congrArg (fun t => { t with addFBList := [] }) heq⟩

omit [DecidableEq FB] in
/-- **What `processAddList` does**: the entries that are due are started, the others are added. -/
theorem gone_processAddList (s : TimerHandler FB) :
    Gone s { s.processAddList with addFBList := s.addFBList }
      (s.addFBList.filterMap (settle s.forteTime))
      (s.addFBList.filter fun entry => entry.timeOut ≤ s.forteTime) := by
  have hadd := gone_foldl settle (fun time entry => entry.timeOut ≤ time) gone_addPending s
    s.addFBList
  obtain ⟨timed, started, hframe⟩ := hadd.frame
  refine ⟨hadd.timed, hadd.log, timed, started, ?_⟩
  rw [processAddList, hframe]

omit [DecidableEq FB] in
/-- **What the second half of a tick does**: the entries of both lists are settled, and those
that are due are started. -/
theorem finishTick_spec (h : s.Ordered) :
    s.finishTick.timedFBList.Perm
        ((s.timedFBList ++ s.addFBList).filterMap (settle s.forteTime)) ∧
      s.finishTick.started = s.started ++
        ((s.timedFBList ++ s.addFBList).filter fun entry => entry.timeOut ≤ s.forteTime).map
          fun entry => (s.ticks, entry.timedFB) := by
  have htimed := gone_processTimedFBList h
  have hadd := gone_processAddList s.processTimedFBList
  obtain ⟨timed, started, hframe⟩ := processTimedFBList_frame s
  have htime : s.processTimedFBList.forteTime = s.forteTime := by rw [hframe]
  have hticks : s.processTimedFBList.ticks = s.ticks := by rw [hframe]
  rw [htime, addFBList_processTimedFBList] at hadd
  constructor
  · refine hadd.timed.trans ?_
    rw [List.filterMap_append]
    exact List.Perm.append_right _ (htimed.timed.trans (perm_settle s.forteTime s.timedFBList))
  · have hlog := hadd.log
    rw [htimed.log, hticks, List.append_assoc, ← List.map_append, ← List.filter_append] at hlog
    exact hlog

end

/-! ### Registrations and entries -/

/-- The entry of a registration behind the tick `c`. -/
def entryOf (c : ℕ) (r : Registration FB) : Option (TimedFBListEntry FB) :=
  (r.next c).map fun due =>
    ⟨r.timedFB, Fin.ofNat _ due, if r.periodic then Fin.ofNat _ r.interval else oneShotIndicator⟩

/-- **Behind each tick**, the lists hold an entry for every registration that is still to
fire. -/
structure Pending (registrations : List (Registration FB)) (s : TimerHandler FB) : Prop where
  time : s.forteTime.val = s.ticks
  begun : s.ticking = true → 0 < s.ticks
  removals : s.removeFBList = []
  entries : (s.timedFBList ++ s.addFBList).Perm (registrations.filterMap (entryOf s.completed))
  fits : ∀ r ∈ registrations, 0 < r.interval ∧ r.interval < 2 ^ 32 ∧
    ∀ due, r.next s.completed = some due → due < 2 ^ 64

section

variable {s : TimerHandler FB} {ticksPerSecond : ℤ} {registrations : List (Registration FB)}

omit [DecidableEq FB] in
theorem after_eq (time : TickTime) {interval : ℕ} (h : interval < 2 ^ 32) :
    after time (Fin.ofNat _ interval) = Fin.ofNat _ (time.val + interval) := by
  refine Fin.ext ?_
  rw [after, Fin.val_add, Fin.val_castLE, Fin.val_ofNat, Fin.val_ofNat, Nat.mod_eq_of_lt h]

omit [DecidableEq FB] in
/-- An entry is due exactly if it is the next tick of its registration. -/
theorem entryOf_due {r : Registration FB} {c due : ℕ} {time : TickTime} (htime : time.val = c + 1)
    (hpos : 0 < r.interval) (hnext : r.next c = some due) (hlt : due < 2 ^ 64) :
    (Fin.ofNat (2 ^ 64) due : TickTime) ≤ time ↔ due = c + 1 := by
  have hc := Registration.lt_of_next hpos hnext
  rw [Fin.le_def, Fin.val_ofNat, Nat.mod_eq_of_lt hlt, htime]
  omega

omit [DecidableEq FB] in
/-- **A tick makes the next entry of a registration from its entry.** -/
theorem bind_settle_entryOf {r : Registration FB} {c : ℕ} {time : TickTime}
    (htime : time.val = c + 1) (hpos : 0 < r.interval) (hlt : r.interval < 2 ^ 32)
    (hfits : ∀ due, r.next c = some due → due < 2 ^ 64) :
    (entryOf c r).bind (settle time) = entryOf (c + 1) r := by
  rw [entryOf, entryOf, Registration.next_succ hpos]
  cases hnext : r.next c with
  | none =>
    rw [if_neg (Option.some_ne_none _).symm]
    rfl
  | some due =>
    have hdue := entryOf_due htime hpos hnext (hfits due hnext)
    rw [Option.map_some, Option.bind_some, settle]
    by_cases heq : due = c + 1
    · rw [if_pos (hdue.mpr heq), if_pos (congrArg some heq), again]
      rcases Bool.eq_false_or_eq_true r.periodic with hperiodic | honce
      · have hne : (Fin.ofNat (2 ^ 32) r.interval) ≠ oneShotIndicator := by
          intro hzero
          have hval := congrArg Fin.val hzero
          rw [Fin.val_ofNat, Nat.mod_eq_of_lt hlt] at hval
          exact absurd hval hpos.ne'
        simp only [hperiodic, if_true]
        rw [if_pos hne, after_eq time hlt, htime]
        rfl
      · simp only [honce, Bool.false_eq_true, if_false]
        rw [if_neg (not_not_intro rfl)]
        rfl
    · rw [if_neg fun hle => heq (hdue.mp hle), if_neg fun h => heq (Option.some.inj h)]
      rfl

theorem Pending.beginTick (h : Pending registrations s) (hticking : s.ticking = false)
    (hfits : s.ticks + 1 < 2 ^ 64) : Pending registrations s.beginTick := by
  have hcompleted : s.beginTick.completed = s.completed := by
    rw [beginTick_eq, completed, completed, if_pos rfl, hticking]
    rfl
  have htimed : s.beginTick.timedFBList = s.timedFBList := by
    rw [beginTick_eq, h.removals]
    exact List.filter_eq_self.mpr fun _ _ => decide_eq_true List.not_mem_nil
  have hadd : s.beginTick.addFBList = s.addFBList := by rw [beginTick_eq]
  refine ⟨?_, fun _ => ?_, ?_, ?_, ?_⟩
  · rw [beginTick_eq]
    change (s.forteTime + 1).val = s.ticks + 1
    rw [Fin.val_add, h.time]
    exact Nat.mod_eq_of_lt hfits
  · rw [beginTick_eq]
    exact Nat.succ_pos _
  · rw [beginTick_eq]
  · rw [htimed, hadd, hcompleted]
    exact h.entries
  · rw [hcompleted]
    exact h.fits

omit [DecidableEq FB] in
/-- A tick that has begun is the one behind those that are completed. -/
theorem Pending.ticks_eq (h : Pending registrations s) (hticking : s.ticking = true) :
    s.ticks = s.completed + 1 := by
  have := h.begun hticking
  rw [completed, hticking, if_pos rfl]
  omega

/-- **What is started in a tick is what fires in it.** -/
theorem countP_due (h : Pending registrations s) (hticking : s.ticking = true) (fb : FB) :
    ((s.timedFBList ++ s.addFBList).filter fun entry => entry.timeOut ≤ s.forteTime).countP
        (fun entry => entry.timedFB = fb) =
      registrations.countP fun r => r.timedFB = fb ∧ r.fires s.ticks := by
  have hticks := h.ticks_eq hticking
  have htime : s.forteTime.val = s.completed + 1 := h.time.trans hticks
  rw [List.countP_filter, h.entries.countP_eq, List.countP_filterMap]
  refine List.countP_congr fun r hr => ?_
  obtain ⟨hpos, -, hfits⟩ := h.fits r hr
  rw [hticks]
  simp only [decide_eq_true_eq, Registration.fires_succ_iff hpos, entryOf]
  cases hnext : r.next s.completed with
  | none => simp
  | some due =>
    have hdue := entryOf_due htime hpos hnext (hfits due hnext)
    simpa using fun _ : r.timedFB = fb => hdue

omit [DecidableEq FB] in
theorem completed_finishTick (s : TimerHandler FB) : s.finishTick.completed = s.ticks := by
  obtain ⟨timed, started, hframe⟩ := finishTick_frame s
  rw [hframe]
  rfl

omit [DecidableEq FB] in
/-- The next ticks behind a tick still fit. -/
theorem Pending.fits_finishTick (h : Pending registrations s) (hticking : s.ticking = true)
    (hfits : s.Fits ticksPerSecond .nextTick) {r : Registration FB} (hr : r ∈ registrations)
    {due : ℕ} (hnext : r.next s.ticks = some due) : due < 2 ^ 64 := by
  have hticks := h.ticks_eq hticking
  obtain ⟨hpos, hlt, hbefore⟩ := h.fits r hr
  rw [hticks, Registration.next_succ hpos] at hnext
  split at hnext
  · rename_i hdue
    split at hnext
    · rename_i hperiodic
      obtain rfl := Option.some.inj hnext
      -- the entry of the registration is due, and comes back
      have hentry : entryOf s.completed r =
          some ⟨r.timedFB, Fin.ofNat _ (s.completed + 1), Fin.ofNat _ r.interval⟩ := by
        rw [entryOf, hdue, Option.map_some, if_pos hperiodic]
      have hmem := h.entries.mem_iff.mpr (List.mem_filterMap.mpr ⟨r, hr, hentry⟩)
      have hle := (entryOf_due (h.time.trans hticks) hpos hdue (hbefore _ hdue)).mpr rfl
      rw [Fits, if_pos hticking] at hfits
      have hroom := hfits _ hmem hle
      rw [Fin.val_ofNat, Nat.mod_eq_of_lt hlt, hticks] at hroom
      exact hroom
    · exact absurd hnext nofun
  · exact hbefore due hnext

/-- **A tick keeps the entries and starts what fires in it.** -/
theorem Pending.finishTick (h : Pending registrations s) (hexact : Exact registrations s)
    (hticking : s.ticking = true) (hfits : s.Fits ticksPerSecond .nextTick) :
    Pending registrations s.finishTick ∧ Exact registrations s.finishTick := by
  have hticks := h.ticks_eq hticking
  obtain ⟨htimed, hstarted⟩ := finishTick_spec hexact.sorted
  obtain ⟨timed, started, hframe⟩ := finishTick_frame s
  constructor
  · refine ⟨?_, fun h' => ?_, ?_, ?_, fun r hr => ?_⟩
    · rw [hframe]
      exact h.time
    · rw [hframe] at h'
      exact absurd h' Bool.false_ne_true
    · rw [hframe]
      exact h.removals
    · have hadd : s.finishTick.addFBList = [] := by rw [hframe]
      rw [hadd, List.append_nil, completed_finishTick, hticks]
      refine htimed.trans ((h.entries.filterMap _).trans ?_)
      rw [List.filterMap_filterMap]
      refine List.Perm.of_eq (List.filterMap_congr fun r hr => ?_)
      obtain ⟨hpos, hlt, hbefore⟩ := h.fits r hr
      exact bind_settle_entryOf (h.time.trans hticks) hpos hlt hbefore
    · obtain ⟨hpos, hlt, -⟩ := h.fits r hr
      refine ⟨hpos, hlt, fun due hnext => ?_⟩
      rw [completed_finishTick] at hnext
      exact h.fits_finishTick hticking hfits hr hnext
  · refine ⟨hexact.sorted.finishTick, fun n fb => ?_⟩
    rw [hstarted, List.count_append, hexact.started, completed_finishTick]
    have hcount : (((s.timedFBList ++ s.addFBList).filter fun entry =>
          entry.timeOut ≤ s.forteTime).map fun entry => (s.ticks, entry.timedFB)).count (n, fb) =
        if n = s.ticks then registrations.countP fun r => r.timedFB = fb ∧ r.fires s.ticks
        else 0 := by
      rw [List.count, List.countP_map]
      split
      · rename_i heq
        rw [heq, ← countP_due h hticking fb]
        refine List.countP_congr fun entry _ => ?_
        simp
      · rename_i hne
        refine List.countP_eq_zero.mpr fun entry _ heq => hne ?_
        exact (congrArg Prod.fst (beq_iff_eq.mp heq)).symm
    rw [hcount]
    rcases Nat.lt_trichotomy n s.ticks with hlt | rfl | hgt
    · rw [if_pos (by omega), if_neg hlt.ne, if_pos hlt.le, Nat.add_zero]
    · rw [if_neg (by omega), if_pos rfl, if_pos (Nat.le_refl _), Nat.zero_add]
    · rw [if_neg (by omega), if_neg hgt.ne', if_neg (by omega)]

omit [DecidableEq FB] in
/-- An interval that fits is not changed by the conversion. -/
theorem convertIntervalToTimerHandlerUnits_eq {timeInterval : BitVec 64}
    (h : intervalInTicks ticksPerSecond timeInterval < 2 ^ 32) :
    convertIntervalToTimerHandlerUnits ticksPerSecond timeInterval =
      Fin.ofNat _ (intervalInTicks ticksPerSecond timeInterval) := by
  rw [intervalInTicks] at h ⊢
  rw [convertIntervalToTimerHandlerUnits]
  generalize timeInterval.toInt.tdiv (forteTimeBaseUnitsPerSecond.tdiv ticksPerSecond) = ticks
    at h ⊢
  refine Fin.ext ?_
  rw [Fin.val_ofNat, Nat.mod_eq_of_lt h]
  by_cases hpos : ticks > 0
  · rw [if_pos hpos]
    change (BitVec.ofInt 32 ticks).toNat = _
    rw [BitVec.toNat_ofInt]
    omega
  · rw [if_neg hpos, Int.toNat_of_nonpos (not_lt.mp hpos)]
    rfl

/-- **A registration is added** as the entry of its first tick. -/
theorem Pending.register (h : Pending registrations s) (hexact : Exact registrations s)
    {r : Registration FB} (htick : r.tick = s.ticks) (hpos : 0 < r.interval)
    (hlt : r.interval < 2 ^ 32) (hroom : s.ticks + r.interval < 2 ^ 64) :
    let entry : TimedFBListEntry FB := ⟨r.timedFB, after s.forteTime (Fin.ofNat _ r.interval),
      if r.periodic then Fin.ofNat _ r.interval else oneShotIndicator⟩
    let t := { s with addFBList := s.addFBList ++ [entry] }
    Pending (registrations ++ [r]) t ∧ Exact (registrations ++ [r]) t := by
  intro entry t
  have hle : s.completed ≤ s.ticks := by
    rw [completed]
    split
    · exact Nat.sub_le _ _
    · exact Nat.le_refl _
  have hnext : r.next s.completed = some (s.ticks + r.interval) := by
    rw [Registration.next, htick, Nat.sub_eq_zero_of_le hle, Nat.zero_div, Nat.zero_add,
      Nat.one_mul]
    split
    · rfl
    · exact if_pos (by omega)
  have hentry : entryOf s.completed r = some entry := by
    rw [entryOf, hnext, Option.map_some, ← h.time, ← after_eq s.forteTime hlt]
  constructor
  · refine ⟨h.time, h.begun, h.removals, ?_, fun r' hr' => ?_⟩
    · change (s.timedFBList ++ (s.addFBList ++ [entry])).Perm
        ((registrations ++ [r]).filterMap (entryOf s.completed))
      rw [List.filterMap_append, List.filterMap_cons_some hentry, List.filterMap_nil,
        ← List.append_assoc]
      exact h.entries.append_right _
    · rcases List.mem_append.mp hr' with hr' | hr'
      · exact h.fits r' hr'
      · obtain rfl := List.mem_singleton.mp hr'
        refine ⟨hpos, hlt, fun due hdue => ?_⟩
        rw [← Option.some.inj (hnext.symm.trans hdue)]
        exact hroom
  · refine ⟨hexact.sorted, fun n fb => ?_⟩
    change s.started.count (n, fb) = if n ≤ s.completed then _ else _
    rw [hexact.started, List.countP_append]
    split
    · -- what is registered now has not fired yet
      rename_i hn
      have hquiet : r.fires n = false := by
        have hbefore : ¬r.tick < n := by omega
        rw [Registration.fires]
        split
        · rw [decide_eq_false hbefore, Bool.false_and]
        · exact decide_eq_false (by omega)
      rw [List.countP_singleton, hquiet]
      simp
    · rfl

/-- **A step keeps the entries, and the exactness.** -/
theorem Pending.step (h : Pending registrations s) (hexact : Exact registrations s)
    {call : Call FB} (hcall : ∀ fb, call ≠ .unregisterTimedFB fb)
    (hfits : s.Fits ticksPerSecond call) :
    Pending (registrations ++ call.registration ticksPerSecond s.ticks)
        (s.step ticksPerSecond call) ∧
      Exact (registrations ++ call.registration ticksPerSecond s.ticks)
        (s.step ticksPerSecond call) := by
  cases call with
  | registerOneShotTimedFB fb timeInterval =>
    have hadd := h.register (r := ⟨fb, s.ticks, intervalInTicks ticksPerSecond timeInterval, false⟩)
      hexact rfl (Nat.lt_of_lt_of_le Nat.one_pos (Nat.le_max_left _ _)) hfits.1 hfits.2
    rw [TimerHandler.step, registerOneShotTimedFB, convertIntervalToTimerHandlerUnits_eq hfits.1]
    exact hadd
  | registerPeriodicTimedFB fb timeInterval =>
    have hadd := h.register (r := ⟨fb, s.ticks, intervalInTicks ticksPerSecond timeInterval, true⟩)
      hexact rfl (Nat.lt_of_lt_of_le Nat.one_pos (Nat.le_max_left _ _)) hfits.1 hfits.2
    rw [TimerHandler.step, registerPeriodicTimedFB, convertIntervalToTimerHandlerUnits_eq hfits.1]
    exact hadd
  | unregisterTimedFB fb => exact absurd rfl (hcall fb)
  | nextTick =>
    rw [Call.registration, List.append_nil, TimerHandler.step]
    split
    · rename_i hticking
      exact h.finishTick hexact hticking hfits
    · rename_i hticking
      have hticking := Bool.eq_false_iff.mpr hticking
      rw [Fits, if_neg (by rw [hticking]; exact Bool.false_ne_true)] at hfits
      refine ⟨h.beginTick hticking hfits, hexact.sorted.beginTick, fun n fb => ?_⟩
      have hstarted : s.beginTick.started = s.started := by rw [beginTick_eq]
      have hcompleted : s.beginTick.completed = s.completed := by
        rw [beginTick_eq, completed, completed, if_pos rfl, hticking]
        rfl
      rw [hstarted, hcompleted]
      exact hexact.started n fb

theorem exact_run_append (calls : List (Call FB)) (hcalls : ∀ fb, .unregisterTimedFB fb ∉ calls)
    (hfits : s.RunFits ticksPerSecond calls) (h : Pending registrations s)
    (hexact : Exact registrations s) :
    Exact (registrations ++ TimerHandler.registrations ticksPerSecond s calls)
      (s.run ticksPerSecond calls) := by
  induction calls generalizing s registrations with
  | nil =>
    rw [TimerHandler.registrations, List.append_nil]
    exact hexact
  | cons call calls ih =>
    obtain ⟨hfit, hfits⟩ := hfits
    obtain ⟨h', hexact'⟩ := h.step hexact
      (fun fb heq => hcalls fb (heq ▸ List.mem_cons_self)) hfit
    rw [TimerHandler.registrations, ← List.append_assoc, run, List.foldl_cons]
    exact ih (fun fb hmem => hcalls fb (List.mem_cons_of_mem call hmem)) hfits h' hexact'

end

/-- **The timer handler is exact in every run whose numbers fit.** -/
theorem exact_run (ticksPerSecond : ℤ) (calls : List (Call FB))
    (hcalls : ∀ fb, .unregisterTimedFB fb ∉ calls)
    (hfits : (initial : TimerHandler FB).RunFits ticksPerSecond calls) :
    Exact (registrations ticksPerSecond initial calls) (initial.run ticksPerSecond calls) := by
  have hpending : Pending [] (initial : TimerHandler FB) :=
    ⟨rfl, nofun, rfl, List.Perm.refl _, fun _ hr => absurd hr List.not_mem_nil⟩
  have hexact : Exact [] (initial : TimerHandler FB) :=
    ⟨List.Pairwise.nil, fun n fb => by split <;> rfl⟩
  exact exact_run_append calls hcalls hfits hpending hexact

/-- A function block that is to be started every three milliseconds is so in the third and the
sixth tick. -/
theorem exact_run_three : Exact
    (registrations 1000 initial
      (.registerPeriodicTimedFB 7 3000000#64 :: List.replicate 12 .nextTick))
    (initial.run 1000 (.registerPeriodicTimedFB 7 3000000#64 :: List.replicate 12 .nextTick) :
      TimerHandler ℕ) :=
  exact_run 1000 _ (by simp) (by decide)

/-- A function block that is to be started every `2 ^ 32` milliseconds is started in the first
tick. -/
theorem not_exact_long_interval :
    ¬∀ (ticksPerSecond : ℤ) (calls : List (Call ℕ)), (∀ fb, .unregisterTimedFB fb ∉ calls) →
      Exact (registrations ticksPerSecond initial calls) (initial.run ticksPerSecond calls) := by
  intro h
  have hcount := (h 1000 [.registerPeriodicTimedFB 7 4294967296000000#64, .nextTick, .nextTick]
    (by simp)).started 1 7
  exact absurd hcount (by decide)

end TimerHandler

end Forte
