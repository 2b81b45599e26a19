import Mathlib.Data.List.TakeWhile
import Forte.Datatypes.Numbers

/-!
# The boot file

A boot file has commands in it, each behind the name of the resource that it is for. The loader
reads a line after the other into a buffer until what is in the buffer ends like a command, and
hands that to a callback.

Whether it ends so is seen from its last 11 and its last 3 characters, which a buffer has to have.
And a command over several lines ends like one at every line that does, an element in the request
that is closed in itself. The loader does what it should exactly for the files without lines of
these two kinds, as far as it reads them (`Forte.BootFile.loads_iff`).
-/

namespace Forte.BootFile

/-- `LoadBootResult`. -/
inductive LoadBootResult
  | loadResultOk | missingColon | fileNotOpened | externalError
  deriving DecidableEq

/-- The character at the end of a line. -/
def newline : UInt8 := 10

/-- The character behind a destination. -/
def semicolon : UInt8 := ';'.toUInt8

/-! ### Reading -/

/-- At most `n` characters, up to the end of the line, and what is behind them. -/
def chunk : ℕ → Text → Text × Text
  | 0, file => ([], file)
  | _, [] => ([], [])
  | n + 1, c :: file =>
    if c = newline then ([c], file) else (c :: (chunk n file).1, (chunk n file).2)

/-- `fgets`, with what is left of the file. -/
def fgets (size : ℕ) (file : Text) : Option (Text × Text) :=
  if file = [] then none else some (chunk (size - 1) file)

/-- What a string in C has of an array of characters. -/
def cString (t : Text) : Text := t.takeWhile (· ≠ 0)

/-- `hasCommandEnded`; without a result if it reads in front of the buffer. -/
def hasCommandEnded (line : Text) : Option Bool :=
  if line.length < 11 then none
  else
    some (line.drop (line.length - 11) = text "</Request>\n" ||
      line.drop (line.length - 3) = text "/>\n")

/-- The loop of `readLine`, with what is left of the file: every pass takes something from it. -/
def readLineLoop : ℕ → Text → Text → Option (Bool × Text × Text)
  | 0, line, file => some (false, line, file)
  | passes + 1, line, file =>
    match fgets 100 file with
    | none => some (line ≠ [], line, file)
    | some (acLineBuf, file) =>
      let line := line ++ cString acLineBuf
      match hasCommandEnded line with
      | none => none
      | some true => some (true, line, file)
      | some false => readLineLoop passes line file

/-- `readLine`. -/
def readLine (file : Text) : Option (Bool × Text × Text) :=
  readLineLoop (file.length + 1) [] file

/-! ### Loading -/

/-- The destination in front of the first semicolon, and the command behind it. -/
def separate (line : Text) : Option (Text × Text) :=
  if semicolon ∈ line then
    some (line.takeWhile (· ≠ semicolon), (line.dropWhile (· ≠ semicolon)).tail)
  else none

/-- What the callback answers, which may depend on what it has been called with. -/
abbrev BootFileCallback := List (Text × Text) → Text → Text → Bool

/-- What loading has done: the calls of the callback, and the result, unless the buffer is read in
front of its beginning. -/
structure Loaded where
  calls : List (Text × Text)
  result : Option LoadBootResult
  deriving DecidableEq

/-- The loop is left after one more line has been read. -/
def leave (eResp : LoadBootResult) (calls : List (Text × Text)) (file : Text) : Loaded :=
  match readLine file with
  | none => ⟨calls, none⟩
  | some _ => ⟨calls, some eResp⟩

/-- The loop of `loadBootFile`. -/
def loadLoop (mCallback : BootFileCallback) : ℕ → List (Text × Text) → Text → Loaded
  | 0, calls, _ => ⟨calls, some .loadResultOk⟩
  | lines + 1, calls, file =>
    match readLine file with
    | none => ⟨calls, none⟩
    | some (false, _, _) => ⟨calls, some .loadResultOk⟩
    | some (true, line, file) =>
      match separate line with
      | none => leave .missingColon calls file
      | some (destination, command) =>
        let calls' := calls ++ [(destination, command)]
        if mCallback calls destination command then loadLoop mCallback lines calls' file
        else leave .externalError calls' file

/-- `loadBootFile`, of a file if it is open. -/
def loadBootFile (mCallback : BootFileCallback) : Option Text → Loaded
  | none => ⟨[], some .fileNotOpened⟩
  | some mBootfile => loadLoop mCallback (mBootfile.length + 1) [] mBootfile

/-! ### What is asked of the loader -/

/-- A text that ends like a command. -/
def Ended (line : Text) : Prop := text "</Request>\n" <:+ line ∨ text "/>\n" <:+ line

/-- An entry of a boot file, which may have a semicolon or not. -/
structure Entry where
  text : Text
  ended : Ended text
  /-- It is a text. -/
  noNul : 0 ∉ text

/-- A file of entries. -/
def content (entries : List Entry) : Text := (entries.map Entry.text).flatten

/-- The calls that there should be, and the result: one call for each entry, up to one that is
rejected, or that has no semicolon. -/
def expected (mCallback : BootFileCallback) : List (Text × Text) → List Entry → Loaded
  | calls, [] => ⟨calls, some .loadResultOk⟩
  | calls, e :: entries =>
    match separate e.text with
    | none => ⟨calls, some .missingColon⟩
    | some (destination, command) =>
      let calls' := calls ++ [(destination, command)]
      if mCallback calls destination command then expected mCallback calls' entries
      else ⟨calls', some .externalError⟩

/-- **What is asked of the loader**: the calls and the result that there should be, and no read in
front of the buffer. -/
def Meets (mCallback : BootFileCallback) (entries : List Entry) : Prop :=
  loadBootFile mCallback (some (content entries)) = expected mCallback [] entries

/-- The first line is long enough to be looked at. -/
def Long (file : Text) : Prop := newline ∉ file.take 10

/-- No line but the last ends like a command. -/
def Unbroken (line : Text) : Prop := ∀ p, p <+: line → Ended p → p = line

/-- Where loading ends, one more line can be read. -/
def CanGoOn (file : Text) : Prop := file = [] ∨ Long file

/-- **The files that are read as they should be**: as far as they are read, every entry begins with
a line that is long enough, and no line of an entry but its last ends like a command. Where an
entry has no semicolon, the part up to the first such line is read. -/
def Readable (mCallback : BootFileCallback) : List (Text × Text) → List Entry → Prop
  | _, [] => True
  | calls, e :: entries =>
    Long e.text ∧
      match separate e.text with
      | none => ∀ p q, e.text = p ++ q → Ended p → Unbroken p → CanGoOn (q ++ content entries)
      | some (destination, command) =>
        Unbroken e.text ∧
          if mCallback calls destination command then
            Readable mCallback (calls ++ [(destination, command)]) entries
          else CanGoOn (content entries)

/-! ### One chunk -/

theorem chunk_append (n : ℕ) (file : Text) : (chunk n file).1 ++ (chunk n file).2 = file := by
  induction n generalizing file with
  | zero => rw [chunk, List.nil_append]
  | succ n ih =>
    cases file with
    | nil => rfl
    | cons c file =>
      rw [chunk]
      split
      · rfl
      · exact congrArg (c :: ·) (ih file)

/-- A chunk does not go beyond the end of a line. -/
theorem chunk_prefix {r : Text} (h : newline ∈ r) (n : ℕ) (s : Text) :
    (chunk n (r ++ s)).1 <+: r := by
  induction n generalizing r with
  | zero => rw [chunk]; exact List.nil_prefix
  | succ n ih =>
    cases r with
    | nil => exact absurd h List.not_mem_nil
    | cons c r =>
      rw [List.cons_append, chunk]
      split
      · exact List.prefix_append [c] r
      · rename_i hc
        rcases List.mem_cons.mp h with heq | hmem
        · exact absurd heq.symm hc
        · exact List.cons_prefix_cons.mpr ⟨rfl, ih hmem⟩

/-- How long a chunk is at least. -/
theorem lt_length_chunk_iff {k n : ℕ} (hk : k < n) (file : Text) :
    k < (chunk n file).1.length ↔ k < file.length ∧ newline ∉ file.take k := by
  induction n generalizing k file with
  | zero => omega
  | succ n ih =>
    cases file with
    | nil => simp [chunk]
    | cons c file =>
      rw [chunk]
      cases k with
      | zero => split <;> simp
      | succ k =>
        rw [List.take_succ_cons, List.mem_cons, List.length_cons]
        split
        · rename_i hc
          simp [hc]
        · rename_i hc
          rw [List.length_cons, Nat.add_lt_add_iff_right, Nat.add_lt_add_iff_right,
            ih (Nat.lt_of_succ_lt_succ hk), or_iff_right (Ne.symm hc)]

/-! ### One line -/

/-- What ends like a command ends a line. -/
theorem Ended.eq_append {p : Text} (h : Ended p) : ∃ l, p = l ++ [newline] := by
  rcases h with ⟨l, rfl⟩ | ⟨l, rfl⟩
  · exact ⟨l ++ text "</Request>", List.append_assoc _ _ _ ▸ rfl⟩
  · exact ⟨l ++ text "/>", List.append_assoc _ _ _ ▸ rfl⟩

theorem Ended.newline_mem {p : Text} (h : Ended p) : newline ∈ p := by
  obtain ⟨l, rfl⟩ := h.eq_append
  exact List.mem_append_right l List.mem_cons_self

/-- In a line that is long enough the test sees how it ends. -/
theorem hasCommandEnded_eq {line : Text} (h : 10 < line.length) :
    hasCommandEnded line = some true ∧ Ended line ∨
      hasCommandEnded line = some false ∧ ¬Ended line := by
  have hiff : Ended line ↔ (line.drop (line.length - 11) = text "</Request>
" ||
      line.drop (line.length - 3) = text "/>
") = true := by
    rw [Ended, List.suffix_iff_eq_drop, List.suffix_iff_eq_drop, Bool.or_eq_true,
      decide_eq_true_iff, decide_eq_true_iff]
    exact or_congr eq_comm eq_comm
  rw [hasCommandEnded, if_neg (by omega), hiff]
  cases (line.drop (line.length - 11) = text "</Request>
" ||
    line.drop (line.length - 3) = text "/>
" : Bool) with
  | true => exact .inl ⟨rfl, rfl⟩
  | false => exact .inr ⟨rfl, Bool.false_ne_true⟩

theorem cString_eq {t : Text} (h : 0 ∉ t) : cString t = t := by
  refine List.takeWhile_eq_self_iff.mpr fun c hc => decide_eq_true ?_
  rintro rfl
  exact h hc

/-- A pass of the loop before the end of the file. -/
theorem readLineLoop_succ {file : Text} (h : file ≠ []) (passes : ℕ) (line : Text) :
    readLineLoop (passes + 1) line file =
      match hasCommandEnded (line ++ cString (chunk 99 file).1) with
      | none => none
      | some true => some (true, line ++ cString (chunk 99 file).1, (chunk 99 file).2)
      | some false =>
        readLineLoop passes (line ++ cString (chunk 99 file).1) (chunk 99 file).2 := by
  rw [readLineLoop, fgets, if_neg h]

/-- **With a line that is long enough nothing is read in front of it** from there on. -/
theorem readLineLoop_ne_none {line : Text} (h : 10 < line.length) (passes : ℕ) (file : Text) :
    readLineLoop passes line file ≠ none := by
  induction passes generalizing line file with
  | zero => exact nofun
  | succ passes ih =>
    rcases eq_or_ne file [] with rfl | hne
    · exact nofun
    · have hlong : 10 < (line ++ cString (chunk 99 file).1).length := by
        rw [List.length_append]
        omega
      rw [readLineLoop_succ hne]
      rcases hasCommandEnded_eq hlong with ⟨hended, -⟩ | ⟨hended, -⟩
      · rw [hended]
        exact nofun
      · rw [hended]
        exact ih hlong _

/-- **The buffer is read in front of its beginning if and only if the first line is too short.** -/
theorem readLine_eq_none_iff {file : Text} (hnul : 0 ∉ file) (hend : file = [] ∨ newline ∈ file) :
    readLine file = none ↔ ¬CanGoOn file := by
  rcases eq_or_ne file [] with rfl | hne
  · exact iff_of_false nofun (not_not_intro (.inl rfl))
  have hsub : ∀ c ∈ (chunk 99 file).1, c ∈ file := by
    intro c hc
    rw [← chunk_append 99 file]
    exact List.mem_append_left _ hc
  have hlength : 10 < (chunk 99 file).1.length ↔ Long file := by
    rw [lt_length_chunk_iff (by omega), Long]
    refine and_iff_right_of_imp fun hlong => ?_
    by_contra hshort
    rw [List.take_of_length_le (not_lt.mp hshort)] at hlong
    exact hlong (hend.resolve_left hne)
  rw [CanGoOn, or_iff_right hne, ← hlength, readLine, readLineLoop_succ hne, List.nil_append,
    cString_eq fun hmem => hnul (hsub 0 hmem)]
  by_cases hlong : 10 < (chunk 99 file).1.length
  · refine iff_of_false ?_ (not_not_intro hlong)
    rcases hasCommandEnded_eq hlong with ⟨hended, -⟩ | ⟨hended, -⟩
    · rw [hended]
      exact nofun
    · rw [hended]
      exact readLineLoop_ne_none hlong _ _
  · refine iff_of_true ?_ hlong
    have hshort : hasCommandEnded (chunk 99 file).1 = none := if_pos (by omega)
    rw [hshort]

/-- **The loop goes on to the first end of a command.** -/
theorem readLineLoop_append {p q : Text} (hnul : 0 ∉ p) (hended : Ended p) (hunbroken : Unbroken p)
    {passes : ℕ} {line r : Text} (hp : p = line ++ r) (hr : r ≠ [])
    (hlong : 10 < line.length ∨ line = [] ∧ Long (r ++ q)) (hpasses : r.length < passes) :
    readLineLoop passes line (r ++ q) = some (true, p, q) := by
  induction passes generalizing line r with
  | zero => omega
  | succ passes ih =>
    have hnewline : newline ∈ r := by
      obtain ⟨l, hl⟩ := hended.eq_append
      have hlast := congrArg List.getLast? (hp.symm.trans hl)
      rw [List.getLast?_concat, List.getLast?_append_of_ne_nil _ hr] at hlast
      exact List.mem_of_getLast? hlast
    have hne : r ++ q ≠ [] := List.append_ne_nil_of_left_ne_nil hr q
    obtain ⟨r', hr'⟩ := chunk_prefix hnewline 99 q
    -- the chunk is a part of what is missing, and not an empty one
    have hrest : (chunk 99 (r ++ q)).2 = r' ++ q := by
      have happend := chunk_append 99 (r ++ q)
      nth_rewrite 3 [← hr'] at happend
      rw [List.append_assoc] at happend
      exact List.append_cancel_left happend
    have hpos : 0 < (chunk 99 (r ++ q)).1.length :=
      (lt_length_chunk_iff (by omega) _).mpr ⟨List.length_pos_iff.mpr hne, by simp⟩
    have hlong' : 10 < (line ++ (chunk 99 (r ++ q)).1).length := by
      rcases hlong with hline | ⟨rfl, hlong⟩
      · rw [List.length_append]
        omega
      · rw [List.nil_append]
        refine (lt_length_chunk_iff (by omega) _).mpr ⟨?_, hlong⟩
        by_contra hshort
        rw [Long, List.take_of_length_le (not_lt.mp hshort)] at hlong
        exact hlong (List.mem_append_left q hnewline)
    have hline : p = (line ++ (chunk 99 (r ++ q)).1) ++ r' := by
      rw [hp, List.append_assoc, hr']
    have hcString : cString (chunk 99 (r ++ q)).1 = (chunk 99 (r ++ q)).1 := by
      refine cString_eq fun hmem => hnul ?_
      rw [hline]
      exact List.mem_append_left _ (List.mem_append_right _ hmem)
    have hlength := congrArg List.length hr'
    rw [List.length_append] at hlength
    rw [readLineLoop_succ hne, hcString, hrest]
    generalize line ++ (chunk 99 (r ++ q)).1 = line' at hlong' hline
    rcases eq_or_ne r' [] with rfl | hr'ne
    · rw [List.append_nil] at hline
      subst hline
      rcases hasCommandEnded_eq hlong' with ⟨hyes, -⟩ | ⟨-, hno⟩
      · rw [hyes]
        rfl
      · exact absurd hended hno
    · have hno : ¬Ended line' := by
        intro hyes
        have heq := hunbroken line' ⟨r', hline.symm⟩ hyes
        rw [heq] at hline
        exact hr'ne (List.self_eq_append_right.mp hline)
      rcases hasCommandEnded_eq hlong' with ⟨-, hyes⟩ | ⟨hend, -⟩
      · exact absurd hyes hno
      · rw [hend]
        exact ih hline hr'ne (.inl hlong') (by omega)

/-- **A line is read up to the first end of a command**, if it begins with one that is long
enough. -/
theorem readLine_append {p q : Text} (hnul : 0 ∉ p) (hended : Ended p) (hunbroken : Unbroken p)
    (hlong : Long (p ++ q)) : readLine (p ++ q) = some (true, p, q) := by
  obtain ⟨l, hl⟩ := hended.eq_append
  refine readLineLoop_append hnul hended hunbroken (List.nil_append p).symm ?_
    (.inr ⟨rfl, hlong⟩) ?_
  · rw [hl]
    exact List.append_ne_nil_of_right_ne_nil _ (List.cons_ne_nil _ _)
  · rw [List.length_append]
    omega

/-! ### The first end of a command -/

/-- **An entry has a first end of a command**: no line before it ends like one. -/
theorem exists_unbroken {line : Text} (h : Ended line) :
    ∃ p q, line = p ++ q ∧ Ended p ∧ Unbroken p := by
  induction hn : line.length using Nat.strongRecOn generalizing line with
  | ind n ih =>
    by_cases hunbroken : Unbroken line
    · exact ⟨line, [], (List.append_nil line).symm, h, hunbroken⟩
    · rw [Unbroken] at hunbroken
      push Not at hunbroken
      obtain ⟨r, ⟨s, hrs⟩, hended, hne⟩ := hunbroken
      have hlength : r.length < n := by
        refine lt_of_le_of_ne ?_ fun heq => ?_
        · rw [← hn, ← hrs, List.length_append]
          omega
        · exact hne (List.IsPrefix.eq_of_length ⟨s, hrs⟩ (heq.trans hn.symm))
      obtain ⟨p, q, rfl, hp, hunb⟩ := ih r.length hlength hended rfl
      exact ⟨p, q ++ s, by rw [← hrs, List.append_assoc], hp, hunb⟩

/-- There is only one first end of a command. -/
theorem Unbroken.unique {p q p' q' : Text} (h : Unbroken p) (hp : Ended p) (h' : Unbroken p')
    (hp' : Ended p') (heq : p ++ q = p' ++ q') : p = p' ∧ q = q' := by
  have hpp : p = p' := by
    rcases List.prefix_or_prefix_of_prefix (List.prefix_append p q)
      (heq ▸ List.prefix_append p' q') with hpre | hpre
    · exact h' p hpre hp
    · exact (h p' hpre hp').symm
  subst hpp
  exact ⟨rfl, List.append_cancel_left heq⟩

/-- Whether the first line is long enough is seen from its end. -/
theorem long_append {p : Text} (h : newline ∈ p) (q : Text) : Long (p ++ q) ↔ Long p := by
  rw [Long, Long, List.take_append, List.mem_append, not_or]
  refine and_iff_left_of_imp fun hp => ?_
  have hlength : 10 ≤ p.length := by
    by_contra hshort
    rw [List.take_of_length_le (by omega)] at hp
    exact hp h
  rw [Nat.sub_eq_zero_of_le hlength, List.take_zero]
  exact List.not_mem_nil

/-! ### The destination -/

theorem takeWhile_append_semicolon {line : Text} (h : semicolon ∈ line) :
    line.takeWhile (· ≠ semicolon) ++ semicolon :: (line.dropWhile (· ≠ semicolon)).tail =
      line := by
  induction line with
  | nil => exact absurd h List.not_mem_nil
  | cons c line ih =>
    rw [List.takeWhile_cons, List.dropWhile_cons]
    by_cases hc : c = semicolon
    · rw [if_neg (by simp [hc]), if_neg (by simp [hc]), List.nil_append, List.tail_cons, hc]
    · rw [if_pos (decide_eq_true hc), if_pos (decide_eq_true hc), List.cons_append,
        ih ((List.mem_cons.mp h).resolve_left (Ne.symm hc))]

/-- What is separated is the whole line. -/
theorem eq_of_separate {line destination command : Text}
    (h : separate line = some (destination, command)) :
    line = destination ++ semicolon :: command := by
  rw [separate] at h
  split at h
  · rename_i hmem
    obtain ⟨rfl, rfl⟩ := Prod.mk.inj (Option.some.inj h)
    exact (takeWhile_append_semicolon hmem).symm
  · exact absurd h nofun

theorem separate_eq_none_of_prefix {p line : Text} (hp : p <+: line) (h : separate line = none) :
    separate p = none := by
  rw [separate] at h ⊢
  split at h
  · exact absurd h nofun
  · rename_i hmem
    exact if_neg fun hsemicolon => hmem (hp.subset hsemicolon)

/-! ### The calls -/

theorem calls_leave (eResp : LoadBootResult) (calls : List (Text × Text)) (file : Text) :
    (leave eResp calls file).calls = calls := by
  rw [leave]
  split <;> rfl

/-- Leaving the loop is seen only by a read in front of the buffer. -/
theorem leave_eq_iff {file : Text} (hnul : 0 ∉ file) (hend : file = [] ∨ newline ∈ file)
    (eResp : LoadBootResult) (calls : List (Text × Text)) :
    leave eResp calls file = ⟨calls, some eResp⟩ ↔ CanGoOn file := by
  rw [leave, ← not_not (a := CanGoOn file), ← readLine_eq_none_iff hnul hend]
  cases readLine file with
  | none => exact iff_of_false (fun h => nomatch congrArg Loaded.result h) (not_not_intro rfl)
  | some read => exact iff_of_true rfl nofun

/-- Calls are not taken back. -/
theorem prefix_calls_loadLoop (mCallback : BootFileCallback) (lines : ℕ)
    (calls : List (Text × Text)) (file : Text) :
    calls <+: (loadLoop mCallback lines calls file).calls := by
  induction lines generalizing calls file with
  | zero => exact List.prefix_rfl
  | succ lines ih =>
    rw [loadLoop]
    split
    · exact List.prefix_rfl
    · exact List.prefix_rfl
    · split
      · rw [calls_leave]
      · dsimp only
        split
        · exact (List.prefix_append calls _).trans (ih _ _)
        · rw [calls_leave]
          exact List.prefix_append calls _

theorem prefix_calls_expected (mCallback : BootFileCallback) (calls : List (Text × Text))
    (entries : List Entry) : calls <+: (expected mCallback calls entries).calls := by
  induction entries generalizing calls with
  | nil => exact List.prefix_rfl
  | cons e entries ih =>
    rw [expected]
    split
    · exact List.prefix_rfl
    · dsimp only
      split
      · exact (List.prefix_append calls _).trans (ih _)
      · exact List.prefix_append calls _

theorem result_expected_ne_none (mCallback : BootFileCallback) (calls : List (Text × Text))
    (entries : List Entry) : (expected mCallback calls entries).result ≠ none := by
  induction entries generalizing calls with
  | nil => exact nofun
  | cons e entries ih =>
    rw [expected]
    split
    · exact nofun
    · dsimp only
      split
      · exact ih _
      · exact nofun

/-! ### The content of a file -/

theorem content_cons (e : Entry) (entries : List Entry) :
    content (e :: entries) = e.text ++ content entries :=
  rfl

theorem not_mem_content (entries : List Entry) : 0 ∉ content entries := by
  induction entries with
  | nil => exact List.not_mem_nil
  | cons e entries ih =>
    rw [content_cons, List.mem_append, not_or]
    exact ⟨e.noNul, ih⟩

theorem content_end (entries : List Entry) :
    content entries = [] ∨ newline ∈ content entries := by
  cases entries with
  | nil => exact .inl rfl
  | cons e entries => exact .inr (List.mem_append_left _ e.ended.newline_mem)

theorem length_le_length_content (entries : List Entry) :
    entries.length ≤ (content entries).length := by
  induction entries with
  | nil => exact Nat.zero_le _
  | cons e entries ih =>
    have hpos := List.length_pos_of_mem e.ended.newline_mem
    rw [content_cons, List.length_append, List.length_cons]
    omega

/-- Behind the first end of a command an entry ends with the end of a line, or is at its end. -/
theorem rest_end {e p q : Text} (h : Ended e) (heq : e = p ++ q) : q = [] ∨ newline ∈ q := by
  obtain ⟨l, hl⟩ := h.eq_append
  rcases eq_or_ne q [] with hq | hq
  · exact .inl hq
  · have hlast := congrArg List.getLast? (heq.symm.trans hl)
    rw [List.getLast?_append_of_ne_nil _ hq, List.getLast?_concat] at hlast
    exact .inr (List.mem_of_getLast? hlast)

/-! ### Loading -/

/-- One pass of the loop where a command is read. -/
theorem loadLoop_succ {file line rest : Text} (h : readLine file = some (true, line, rest))
    (mCallback : BootFileCallback) (lines : ℕ) (calls : List (Text × Text)) :
    loadLoop mCallback (lines + 1) calls file =
      match separate line with
      | none => leave .missingColon calls rest
      | some (destination, command) =>
        let calls' := calls ++ [(destination, command)]
        if mCallback calls destination command then loadLoop mCallback lines calls' rest
        else leave .externalError calls' rest := by
  rw [loadLoop, h]

/-- Where a part of an entry is read, the entry is not passed on. -/
theorem loadLoop_ne_expected {e : Entry} {p q : Text} (heq : e.text = p ++ q) (hp : Ended p)
    (hunbroken : Unbroken p) (hne : p ≠ e.text) {entries : List Entry}
    {destination command : Text} (hsep : separate e.text = some (destination, command))
    (hlong : Long e.text) (mCallback : BootFileCallback) (lines : ℕ)
    (calls : List (Text × Text)) :
    loadLoop mCallback (lines + 1) calls (content (e :: entries)) ≠
      expected mCallback calls (e :: entries) := by
  have hnul : 0 ∉ p := fun h => e.noNul (heq ▸ List.mem_append_left q h)
  have hread : readLine (content (e :: entries)) = some (true, p, q ++ content entries) := by
    rw [content_cons, heq, List.append_assoc]
    refine readLine_append hnul hp hunbroken ((long_append hp.newline_mem _).mpr ?_)
    rwa [heq, long_append hp.newline_mem] at hlong
  -- what should be the next call
  have hexpected : calls ++ [(destination, command)] <+:
      (expected mCallback calls (e :: entries)).calls := by
    rw [expected, hsep]
    dsimp only
    split
    · exact prefix_calls_expected mCallback _ entries
    · exact List.prefix_rfl
  intro h
  rw [← h, loadLoop_succ hread] at hexpected
  rcases hsep' : separate p with _ | ⟨destination', command'⟩
  · rw [hsep'] at hexpected
    dsimp only at hexpected
    rw [calls_leave] at hexpected
    have hlength := hexpected.length_le
    rw [List.length_append, List.length_singleton] at hlength
    omega
  · rw [hsep'] at hexpected
    dsimp only at hexpected
    -- the call that there is instead
    have hcalls : calls ++ [(destination', command')] <+:
        (if mCallback calls destination' command' = true then
          loadLoop mCallback lines (calls ++ [(destination', command')]) (q ++ content entries)
        else leave .externalError (calls ++ [(destination', command')])
          (q ++ content entries)).calls := by
      split
      · exact prefix_calls_loadLoop mCallback _ _ _
      · rw [calls_leave]
    have hsame := List.prefix_of_prefix_length_le hcalls hexpected (by simp)
    obtain ⟨rfl, rfl⟩ := Prod.mk.inj (List.singleton_inj.mp (List.append_cancel_left
      (List.IsPrefix.eq_of_length hsame (by simp))))
    exact hne ((eq_of_separate hsep').trans (eq_of_separate hsep).symm)

/-- The loop from any call on. -/
theorem loadLoop_eq_iff (mCallback : BootFileCallback) (entries : List Entry)
    (calls : List (Text × Text)) {lines : ℕ} (h : entries.length < lines) :
    loadLoop mCallback lines calls (content entries) = expected mCallback calls entries ↔
      Readable mCallback calls entries := by
  induction entries generalizing calls lines with
  | nil =>
    obtain ⟨lines, rfl⟩ := Nat.exists_eq_add_of_lt h
    exact iff_of_true rfl trivial
  | cons e entries ih =>
    cases lines with
    | zero => omega
    | succ lines =>
      rw [Readable]
      by_cases hlong : Long e.text
      swap
      · have hread : readLine (content (e :: entries)) = none := by
          refine (readLine_eq_none_iff (not_mem_content _) (content_end _)).mpr ?_
          rintro (hnil | hlong')
          · exact List.ne_nil_of_mem (List.mem_append_left _ e.ended.newline_mem) hnil
          · exact hlong ((long_append e.ended.newline_mem _).mp hlong')
        refine iff_of_false (fun heq => ?_) fun hreadable => hlong hreadable.1
        rw [loadLoop, hread] at heq
        exact result_expected_ne_none mCallback calls (e :: entries)
          (congrArg Loaded.result heq).symm
      rw [and_iff_right hlong]
      obtain ⟨p, q, heq, hp, hunbroken⟩ := exists_unbroken e.ended
      have hread : readLine (content (e :: entries)) = some (true, p, q ++ content entries) := by
        rw [content_cons, heq, List.append_assoc]
        refine readLine_append (fun hmem => e.noNul (heq ▸ List.mem_append_left q hmem)) hp
          hunbroken ((long_append hp.newline_mem _).mpr ?_)
        rwa [heq, long_append hp.newline_mem] at hlong
      rcases hsep : separate e.text with _ | ⟨destination, command⟩
      · have hnul : 0 ∉ q ++ content entries := by
          rw [List.mem_append, not_or]
          exact ⟨fun hmem => e.noNul (heq ▸ List.mem_append_right p hmem), not_mem_content entries⟩
        have hend : q ++ content entries = [] ∨ newline ∈ q ++ content entries := by
          rcases rest_end e.ended heq with rfl | hq
          · exact content_end entries
          · exact .inr (List.mem_append_left _ hq)
        rw [loadLoop_succ hread, separate_eq_none_of_prefix ⟨q, heq.symm⟩ hsep, expected, hsep]
        dsimp only
        rw [leave_eq_iff hnul hend]
        refine ⟨fun hgo p' q' heq' hp' hunbroken' => ?_, fun hall => hall p q heq hp hunbroken⟩
        obtain ⟨-, rfl⟩ := hunbroken.unique hp hunbroken' hp' (heq.symm.trans heq')
        exact hgo
      · dsimp only
        by_cases hwhole : p = e.text
        · have hq : q = [] := List.self_eq_append_right.mp (hwhole.trans heq)
          subst hq
          rw [← hwhole, and_iff_right hunbroken, loadLoop_succ hread, expected, hwhole, hsep,
            List.nil_append]
          dsimp only
          split
          · exact ih _ (Nat.lt_of_succ_lt_succ h)
          · exact leave_eq_iff (not_mem_content entries) (content_end entries) _ _
        · refine iff_of_false
            (loadLoop_ne_expected heq hp hunbroken hwhole hsep hlong mCallback lines calls) ?_
          exact fun hreadable => hwhole (hreadable.1 p ⟨q, heq.symm⟩ hp)

/-- **The loader does what is asked of it exactly for the files that are readable**: as far as the
file is read, every entry begins with a line of eleven characters or more, and no line of an entry
but its last ends like a command. -/
theorem loads_iff (mCallback : BootFileCallback) (entries : List Entry) :
    Meets mCallback entries ↔ Readable mCallback [] entries :=
  loadLoop_eq_iff mCallback entries [] (Nat.lt_succ_of_le (length_le_length_content entries))

/-- A request with an element that is closed in itself, at the end of its first line. -/
def request : Entry where
  text := text "R;<Request>\n<FB Name=\"F\"/>\n</Request>\n"
  ended := .inl ⟨text "R;<Request>\n<FB Name=\"F\"/>\n", rfl⟩
  noNul := by decide

/-- **A request over several lines is cut behind an element that is closed in itself**: the
callback gets the first part of it, and the second has no semicolon. -/
theorem not_meets_cut : ¬Meets (fun _ _ _ => true) [request] := by
  intro h
  have hreadable := (loadLoop_eq_iff (fun _ _ _ => true) [request] []
    (Nat.lt_succ_of_le (length_le_length_content [request]))).mp h
  have hcut := hreadable.2.1 (text "R;<Request>\n<FB Name=\"F\"/>\n") ⟨text "</Request>\n", rfl⟩
    (.inr ⟨text "R;<Request>\n<FB Name=\"F\"", rfl⟩)
  exact absurd (congrArg List.length hcut) (by decide)

end Forte.BootFile
