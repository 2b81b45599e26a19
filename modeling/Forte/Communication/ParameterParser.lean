import Mathlib.Data.List.DropRight
import Forte.Datatypes.Numbers
import Forte.Lib.CString

/-!
# Parameters with separators

`CParameterParser` copies its text and cuts the copy into pieces in place: white space in front of
a piece is passed over, and a zero is written behind its last character that is none. What it
hands out are pointers into the copy.

The loop that goes back over the white space at the end of a piece is not told where the piece
begins. In the model it is, and there is no result if it reads in front of it. As there is a
result, it does not (`Forte.ParameterParser.parses`).
-/

namespace Forte

/-- `isspace` in the locale `C`, where a character that is not of ASCII is no white space. -/
def isspace (c : UInt8) : Bool := c = ' '.toUInt8 || (9 ≤ c && c ≤ 13)

/-- A text without the white space at both ends. -/
def trim (t : Text) : Text := (t.dropWhile isspace).rdropWhile isspace

/-- A `CParameterParser`; its locations are positions in the copy of the text. -/
structure ParameterParser where
  mParameters : List UInt8
  mParameterLocations : List ℕ
  mSeparator : UInt8

namespace ParameterParser

/-- The text at a pointer, up to its terminator; a null pointer is taken as an empty text. -/
def given (paParameters : Option Text) : Text := (paParameters.getD []).takeWhile (· ≠ 0)

/-- The constructor. -/
def create (paParameters : Option Text) (paSeparator : UInt8) : ParameterParser where
  mParameters := given paParameters ++ [0]
  mParameterLocations := []
  mSeparator := paSeparator

/-- `moveToPositionOfFirstNonWhiteSpaceCharacter`. -/
def moveToPositionOfFirstNonWhiteSpaceCharacter (parsePosition : ℕ) : Mem UInt8 ℕ := do
  let n ← Mem.scan (CString.advance isspace) parsePosition
  pure (parsePosition + n)

/-- `moveToPositionOfNextParameterSeparatorOrEndOfString`. -/
def moveToPositionOfNextParameterSeparatorOrEndOfString (mSeparator : UInt8)
    (parsePosition : ℕ) : Mem UInt8 ℕ := do
  let n ← Mem.scan (CString.advance fun c => c ≠ mSeparator && c ≠ 0) parsePosition
  pure (parsePosition + n)

/-- `trimTrailingWhiteSpacesOfParameterSubstring` of a piece that begins at `start`. -/
def trimTrailingWhiteSpacesOfParameterSubstring (start parsePosition : ℕ) (isSpace : Bool) :
    Mem UInt8 Unit := do
  let n ← if isSpace then pure 0 else Mem.scanBack (CString.advance isspace) start parsePosition
  Mem.write (parsePosition - n) 0

/-- A round of the loop of `parseParameters`: where the piece begins and where its separator is,
and the character there. -/
def parsePiece (mSeparator : UInt8) (parsePosition : ℕ) : Mem UInt8 (ℕ × ℕ × UInt8) := do
  let start ←
    if mSeparator ≠ ' '.toUInt8 then moveToPositionOfFirstNonWhiteSpaceCharacter parsePosition
    else pure parsePosition
  let parsePosition ← moveToPositionOfNextParameterSeparatorOrEndOfString mSeparator start
  let c ← Mem.scan List.head? parsePosition
  if start < parsePosition then
    trimTrailingWhiteSpacesOfParameterSubstring start parsePosition (mSeparator = ' '.toUInt8)
  else Mem.write parsePosition 0
  pure (start, parsePosition, c)

/-- The loop of `parseParameters`, without a result if the rounds are used up. -/
def parseLoop (mSeparator : UInt8) : ℕ → ℕ → List ℕ → Mem UInt8 (List ℕ)
  | 0, _, _ => failure
  | rounds + 1, parsePosition, locations => do
    let (start, parsePosition, c) ← parsePiece mSeparator parsePosition
    if c = 0 then pure (locations ++ [start])
    else parseLoop mSeparator rounds (parsePosition + 1) (locations ++ [start])

/-- `parseParameters`. -/
def parseParameters (parser : ParameterParser) : Option (ℕ × ParameterParser) := do
  let c ← parser.mParameters.head?
  let (locations, buffer) ←
    if c = 0 then pure (parser.mParameterLocations ++ [0], parser.mParameters)
    else
      (parseLoop parser.mSeparator parser.mParameters.length 0 parser.mParameterLocations).run
        parser.mParameters
  pure (locations.length, { parser with mParameters := buffer, mParameterLocations := locations })

/-- `operator[]`; `none` is the null pointer. -/
def get (parser : ParameterParser) (paIndex : ℕ) : Option ℕ := parser.mParameterLocations[paIndex]?

/-- The text at a pointer that was handed out. -/
def textAt (parser : ParameterParser) (location : ℕ) : Option Text :=
  CString.string 0 (parser.mParameters.drop location)

/-! ### One piece -/

theorem isspace_zero : isspace 0 = false := rfl

/-- The white space in front of a piece, the piece without it, and the white space behind it. -/
theorem takeWhile_append_trim (a : Text) :
    a.takeWhile isspace ++ (trim a ++ (a.dropWhile isspace).rtakeWhile isspace) = a := by
  rw [trim, List.rdropWhile_append_rtakeWhile, List.takeWhile_append_dropWhile]

theorem dropWhile_eq_trim_append (a : Text) :
    a.dropWhile isspace = trim a ++ (a.dropWhile isspace).rtakeWhile isspace := by
  rw [trim, List.rdropWhile_append_rtakeWhile]

/-- What is left of a piece is empty only if all of it was white space. -/
theorem trim_eq_nil_iff (a : Text) : trim a = [] ↔ a.dropWhile isspace = [] := by
  rw [trim, List.rdropWhile_eq_nil_iff]
  constructor
  · intro h
    by_contra hne
    have hhead := List.head_dropWhile_not isspace hne
    rw [h _ (List.head_mem hne)] at hhead
    cases hhead
  · intro h
    simp [h]

/-- The first character that is not passed over is no white space. -/
theorem head?_dropWhile_append {separator c : UInt8} (hseparator : isspace separator = false)
    (hc : c = separator ∨ c = 0) (a rest : List UInt8) :
    ∃ d, (a.dropWhile isspace ++ c :: rest).head? = some d ∧ isspace d = false := by
  by_cases hnil : a.dropWhile isspace = []
  · refine ⟨c, by rw [hnil]; rfl, ?_⟩
    rcases hc with rfl | rfl
    · exact hseparator
    · exact isspace_zero
  · refine ⟨(a.dropWhile isspace).head hnil, ?_, List.head_dropWhile_not isspace hnil⟩
    rw [List.head?_append_of_ne_nil _ hnil, List.head?_eq_some_head hnil]

/-- The last character of a piece that is left is no white space. -/
theorem head?_reverse_trim {a : Text} (h : trim a ≠ []) :
    ∃ c, (trim a).reverse.head? = some c ∧ isspace c = false := by
  have hlast : isspace ((trim a).getLast h) ≠ true := List.rdropWhile_last_not isspace _ h
  refine ⟨(trim a).getLast h, ?_, Bool.eq_false_of_not_eq_true hlast⟩
  rw [List.head?_reverse, List.getLast?_eq_some_getLast h]

section Round

variable {separator c : UInt8} {a : Text} (done rest : List UInt8)

/-- The white space in front of a piece is passed over. -/
theorem run_moveToPositionOfFirstNonWhiteSpaceCharacter (hseparator : isspace separator = false)
    (hc : c = separator ∨ c = 0) :
    (moveToPositionOfFirstNonWhiteSpaceCharacter done.length).run (done ++ (a ++ c :: rest)) =
      some (done.length + (a.takeWhile isspace).length, done ++ (a ++ c :: rest)) := by
  have hskip : CString.advance isspace ((done ++ (a ++ c :: rest)).drop done.length) =
      some (a.takeWhile isspace).length := by
    rw [List.drop_left]
    conv_lhs => rw [← List.takeWhile_append_dropWhile (p := isspace) (l := a)]
    rw [List.append_assoc]
    exact CString.advance_append (fun d hd => List.mem_takeWhile_imp hd)
      (head?_dropWhile_append hseparator hc a rest)
  rw [moveToPositionOfFirstNonWhiteSpaceCharacter, Mem.run_scan_bind hskip]
  rfl

/-- The separator is found from anywhere in the piece. -/
theorem run_moveToPositionOfNextParameterSeparatorOrEndOfString (ha : ∀ x ∈ a, x ≠ separator ∧ x ≠ 0)
    (hc : c = separator ∨ c = 0) :
    (moveToPositionOfNextParameterSeparatorOrEndOfString separator done.length).run
        (done ++ (a ++ c :: rest)) =
      some (done.length + a.length, done ++ (a ++ c :: rest)) := by
  have hfind : CString.advance (fun d => d ≠ separator && d ≠ 0)
      ((done ++ (a ++ c :: rest)).drop done.length) = some a.length := by
    rw [List.drop_left]
    refine CString.advance_append (fun d hd => ?_) ⟨c, rfl, ?_⟩
    · simp [ha d hd]
    · rcases hc with rfl | rfl <;> simp
  rw [moveToPositionOfNextParameterSeparatorOrEndOfString, Mem.run_scan_bind hfind]
  rfl

/-- The white space behind a piece is cut off, and nothing in front of the piece is read. -/
theorem run_trimTrailingWhiteSpacesOfParameterSubstring (h : trim a ≠ []) :
    (trimTrailingWhiteSpacesOfParameterSubstring done.length
        (done.length + (a.dropWhile isspace).length) false).run
        (done ++ (a.dropWhile isspace ++ c :: rest)) =
      some ((), done ++ (trim a ++
        (0 :: ((a.dropWhile isspace).rtakeWhile isspace ++ c :: rest).tail))) := by
  have hback : CString.advance isspace
      (((done ++ (a.dropWhile isspace ++ c :: rest)).take
        (done.length + (a.dropWhile isspace).length)).drop done.length).reverse =
      some ((a.dropWhile isspace).rtakeWhile isspace).length := by
    rw [← List.append_assoc, ← List.length_append, List.take_left, List.drop_left]
    conv_lhs => rw [dropWhile_eq_trim_append, List.reverse_append]
    rw [CString.advance_append, List.length_reverse]
    · intro d hd
      exact List.mem_rtakeWhile_imp (List.mem_reverse.mp hd)
    · exact head?_reverse_trim h
  obtain ⟨x, tail, hx⟩ : ∃ x tail,
      (a.dropWhile isspace).rtakeWhile isspace ++ c :: rest = x :: tail :=
    List.exists_cons_of_ne_nil (by simp)
  have hmem : done ++ (a.dropWhile isspace ++ c :: rest) = (done ++ trim a) ++ x :: tail := by
    rw [dropWhile_eq_trim_append, List.append_assoc, hx, List.append_assoc]
  have hpos : done.length + (a.dropWhile isspace).length -
      ((a.dropWhile isspace).rtakeWhile isspace).length = (done ++ trim a).length := by
    have hlen := congrArg List.length (dropWhile_eq_trim_append a)
    rw [List.length_append] at hlen ⊢
    omega
  rw [trimTrailingWhiteSpacesOfParameterSubstring, if_neg Bool.false_ne_true,
    Mem.run_scanBack_bind hback]
  dsimp only
  rw [hpos, hmem, hx, Mem.run_write (by simp), List.set_append_right _ _ le_rfl, Nat.sub_self,
    List.append_assoc]
  rfl

/-- **A round** cuts the first piece out of what is left of the text. -/
theorem run_parsePiece (hseparator : isspace separator = false)
    (ha : ∀ x ∈ a, x ≠ separator ∧ x ≠ 0) (hc : c = separator ∨ c = 0) :
    ∃ cut : List UInt8, cut.length = a.length + 1 ∧
      (parsePiece separator done.length).run (done ++ (a ++ c :: rest)) =
        some ((done.length + (a.takeWhile isspace).length, done.length + a.length, c),
          done ++ (cut ++ rest)) ∧
      ∀ behind, CString.string 0 ((cut ++ behind).drop (a.takeWhile isspace).length) =
        some (trim a) := by
  have hsplit := takeWhile_append_trim a
  have hspace : separator ≠ ' '.toUInt8 := by
    rintro rfl
    cases hseparator
  have hmem : done ++ (a ++ c :: rest) =
      (done ++ a.takeWhile isspace) ++ (a.dropWhile isspace ++ c :: rest) := by
    conv_lhs => rw [← List.takeWhile_append_dropWhile (p := isspace) (l := a)]
    rw [List.append_assoc, List.append_assoc]
  have hbody : ∀ x ∈ a.dropWhile isspace, x ≠ separator ∧ x ≠ 0 :=
    fun x hx => ha x ((List.dropWhile_suffix isspace).subset hx)
  have hstart : (done ++ a.takeWhile isspace).length =
      done.length + (a.takeWhile isspace).length := List.length_append
  have hend : (done ++ a.takeWhile isspace).length + (a.dropWhile isspace).length =
      done.length + a.length := by
    have hlen := congrArg List.length (List.takeWhile_append_dropWhile (p := isspace) (l := a))
    rw [List.length_append] at hlen ⊢
    omega
  have hskip := run_moveToPositionOfFirstNonWhiteSpaceCharacter (a := a) done rest hseparator hc
  have hfind := run_moveToPositionOfNextParameterSeparatorOrEndOfString
    (done ++ a.takeWhile isspace) rest hbody hc
  rw [hend] at hfind
  have hchar : ((done ++ (a ++ c :: rest)).drop (done.length + a.length)).head? = some c := by
    rw [← List.append_assoc, ← List.length_append, List.drop_left, List.head?_cons]
  rw [← hstart, hmem] at hskip
  rw [hmem] at hchar
  rw [parsePiece, if_pos hspace, hmem, Mem.run_bind_of_eq_some hskip,
    Mem.run_bind_of_eq_some hfind, Mem.run_scan_bind hchar, decide_eq_false hspace]
  by_cases hnil : trim a = []
  · have hbodynil := (trim_eq_nil_iff a).mp hnil
    rw [hbodynil, List.length_nil, Nat.add_zero] at hend
    have hlen : (a.takeWhile isspace).length = a.length := by omega
    rw [if_neg (by omega), hbodynil, List.nil_append, ← hend, Mem.run_write_bind (by simp),
      List.set_append_right _ _ le_rfl, Nat.sub_self, List.set_cons_zero]
    refine ⟨a.takeWhile isspace ++ [0], by rw [List.length_append, hlen]; rfl, ?_,
      fun behind => ?_⟩
    · rw [hend, List.append_assoc, List.append_assoc, hlen]
      rfl
    · rw [List.append_assoc, List.drop_left, hnil]
      rfl
  · have hbodynil := mt (trim_eq_nil_iff a).mpr hnil
    have hpos := List.length_pos_iff.mpr hbodynil
    have htrim := run_trimTrailingWhiteSpacesOfParameterSubstring (c := c)
      (done ++ a.takeWhile isspace) rest hnil
    rw [hend] at htrim
    rw [if_pos (by omega), Mem.run_bind_of_eq_some htrim]
    have htail : ((a.dropWhile isspace).rtakeWhile isspace ++ c :: rest).tail =
        ((a.dropWhile isspace).rtakeWhile isspace ++ [c]).tail ++ rest := by
      rw [← List.singleton_append, ← List.append_assoc, List.tail_append_of_ne_nil (by simp)]
    have hzero : (0 : UInt8) ∉ trim a := by
      intro hmem
      rw [dropWhile_eq_trim_append] at hbody
      exact (hbody 0 (List.mem_append_left _ hmem)).2 rfl
    refine ⟨a.takeWhile isspace ++ (trim a ++
      0 :: ((a.dropWhile isspace).rtakeWhile isspace ++ [c]).tail), ?_, ?_, fun behind => ?_⟩
    · have hlen := congrArg List.length hsplit
      simp only [List.length_append, List.length_cons, List.length_tail, List.length_nil] at hlen ⊢
      omega
    · rw [htail, hstart]
      simp only [List.append_assoc, List.cons_append]
      rfl
    · rw [List.append_assoc, List.drop_left, List.append_assoc, List.cons_append]
      exact CString.string_append_cons hzero _

end Round

/-! ### All pieces -/

/-- The first piece of a text with what is behind its separator, or a text without separators. -/
theorem splitOn_cases (separator : UInt8) (t : Text) :
    (∃ a b, t = a ++ separator :: b ∧ separator ∉ a ∧ t.splitOn separator = a :: b.splitOn separator) ∨
      separator ∉ t ∧ t.splitOn separator = [t] := by
  by_cases hmem : separator ∈ t
  · obtain ⟨a, b, rfl, ha⟩ := List.eq_append_cons_of_mem hmem
    exact .inl ⟨a, b, rfl, ha, List.splitOn_append_cons_self_of_not_mem ha b⟩
  · exact .inr ⟨hmem, List.splitOn_eq_singleton hmem⟩

/-- What there is at a location of the part of the memory behind some of it. -/
def Holds (done cut : List UInt8) (location : ℕ) (piece : Text) : Prop :=
  done.length ≤ location ∧ CString.string 0 (cut.drop (location - done.length)) = some piece

theorem Holds.of_append {done front cut : List UInt8} {location : ℕ} {piece : Text}
    (h : Holds (done ++ front) cut location piece) : Holds done (front ++ cut) location piece := by
  obtain ⟨hle, hpiece⟩ := h
  rw [List.length_append] at hle hpiece
  refine ⟨by omega, ?_⟩
  rwa [List.drop_append, List.drop_eq_nil_of_le (by omega), List.nil_append, Nat.sub_sub]

/-- **The loop** leaves the pieces at the locations that it adds. -/
theorem run_parseLoop {separator : UInt8} (hseparator : isspace separator = false) {t : Text}
    (ht : 0 ∉ t) {rounds : ℕ} (hrounds : t.length < rounds) (done : List UInt8)
    (locations : List ℕ) : ∃ (new : List ℕ) (cut : List UInt8),
      (parseLoop separator rounds done.length locations).run (done ++ (t ++ [0])) =
        some (locations ++ new, done ++ cut) ∧
      List.Forall₂ (Holds done cut) new ((t.splitOn separator).map trim) := by
  induction rounds generalizing t done locations with
  | zero => exact absurd hrounds (Nat.not_lt_zero _)
  | succ rounds ih =>
    have hne : ∀ x ∈ t, x ≠ 0 := fun x hx => ne_of_mem_of_not_mem hx ht
    rw [parseLoop]
    rcases splitOn_cases separator t with ⟨a, b, rfl, ha, hsplit⟩ | ⟨hmem, hsplit⟩
    · -- the memory up to the separator is done with
      have hpiece : ∀ x ∈ a, x ≠ separator ∧ x ≠ 0 := fun x hx =>
        ⟨ne_of_mem_of_not_mem hx ha, hne x (List.mem_append_left _ hx)⟩
      obtain ⟨front, hfront, hrun, hstring⟩ :=
        run_parsePiece done (b ++ [0]) hseparator hpiece (.inl rfl)
      have hzero : separator ≠ 0 := hne separator (by simp)
      have hnext : (done ++ front).length = done.length + a.length + 1 := by
        rw [List.length_append, hfront, Nat.add_assoc]
      simp only [List.length_append, List.length_cons] at hrounds
      obtain ⟨new, cut, hloop, hnew⟩ := ih
        (fun hmem => ht (List.mem_append_right _ (List.mem_cons_of_mem _ hmem)))
        (by omega : b.length < rounds) (done ++ front)
        (locations ++ [done.length + (a.takeWhile isspace).length])
      refine ⟨(done.length + (a.takeWhile isspace).length) :: new, front ++ cut, ?_, ?_⟩
      · rw [List.append_assoc, List.cons_append, Mem.run_bind_of_eq_some hrun]
        dsimp only
        rw [if_neg hzero, ← hnext, ← List.append_assoc, hloop, List.append_assoc,
          List.append_assoc]
        rfl
      · rw [hsplit, List.map_cons]
        refine .cons ⟨Nat.le_add_right _ _, ?_⟩ (hnew.imp fun _ _ h => h.of_append)
        rw [Nat.add_sub_cancel_left]
        exact hstring cut
    · have hpiece : ∀ x ∈ t, x ≠ separator ∧ x ≠ 0 := fun x hx =>
        ⟨ne_of_mem_of_not_mem hx hmem, hne x hx⟩
      obtain ⟨cut, -, hrun, hstring⟩ := run_parsePiece done [] hseparator hpiece (.inr rfl)
      refine ⟨[done.length + (t.takeWhile isspace).length], cut, ?_, ?_⟩
      · rw [Mem.run_bind_of_eq_some hrun, List.append_nil]
        rfl
      · rw [hsplit]
        refine .cons ⟨Nat.le_add_right _ _, ?_⟩ .nil
        rw [Nat.add_sub_cancel_left, ← List.append_nil cut]
        exact hstring []

theorem length_splitOn (separator : UInt8) (t : Text) :
    (t.splitOn separator).length = t.count separator + 1 := by
  induction t with
  | nil => rfl
  | cons c t ih =>
    rw [List.splitOn_cons_eq_if_modifyHead, List.count_cons]
    split
    · rw [List.length_cons, ih]
    · rw [List.length_modifyHead, ih, Nat.add_zero]

theorem zero_notMem_given (paParameters : Option Text) : (0 : UInt8) ∉ given paParameters := by
  intro hmem
  exact absurd (List.mem_takeWhile_imp hmem) (by decide)

/-- **What is parsed**: locations with the pieces at them. -/
theorem parseParameters_eq (paParameters : Option Text) {separator : UInt8}
    (hseparator : isspace separator = false) : ∃ (locations : List ℕ) (cut : List UInt8),
      (create paParameters separator).parseParameters =
        some (locations.length, ⟨cut, locations, separator⟩) ∧
      List.Forall₂ (Holds [] cut) locations
        (((given paParameters).splitOn separator).map trim) := by
  have hzero := zero_notMem_given paParameters
  rw [parseParameters, create]
  generalize given paParameters = t at hzero ⊢
  cases t with
  | nil => exact ⟨[0], [0], rfl, .cons ⟨le_rfl, rfl⟩ .nil⟩
  | cons c t =>
    have hne : c ≠ 0 := fun h => hzero (h ▸ List.mem_cons_self)
    obtain ⟨locations, cut, hrun, hpieces⟩ := run_parseLoop hseparator hzero
      (by simp : (c :: t).length < (c :: t ++ [0]).length) [] []
    refine ⟨locations, cut, ?_, hpieces⟩
    rw [List.nil_append, List.nil_append, List.length_nil] at hrun
    simp only [List.cons_append, List.head?_cons, Option.bind_eq_bind, Option.bind_some,
      if_neg hne]
    rw [← List.cons_append, hrun]
    rfl

/-- **A parameter text is cut into its pieces**, with the separator anything but white space: there
is one piece more than there are separators, each without the white space at its ends, and each is
handed out under its place. Nothing in front of a piece is read while it is cut. -/
theorem parses (paParameters : Option Text) {separator : UInt8}
    (hseparator : isspace separator = false) :
    ∃ parser, (create paParameters separator).parseParameters =
        some ((given paParameters).count separator + 1, parser) ∧
      ∀ i, (parser.get i).map parser.textAt =
        (((given paParameters).splitOn separator).map trim)[i]?.map some := by
  obtain ⟨locations, cut, hrun, hpieces⟩ := parseParameters_eq paParameters hseparator
  have hlen := hpieces.length_eq
  rw [List.length_map, length_splitOn] at hlen
  rw [hlen] at hrun
  refine ⟨_, hrun, fun i => ?_⟩
  have htexts : locations.map (textAt ⟨cut, locations, separator⟩) =
      (((given paParameters).splitOn separator).map trim).map some := by
    rw [← List.forall₂_eq_eq_eq, List.forall₂_map_left_iff, List.forall₂_map_right_iff]
    exact hpieces.imp fun _ _ h => h.2
  rw [get, ← List.getElem?_map, ← List.getElem?_map, htexts]

/-- A text with a piece of white space only. -/
theorem parses_blank : ∃ parser,
    (create (some (text " a , ,b c,")) ','.toUInt8).parseParameters = some (4, parser) ∧
      ∀ i, (parser.get i).map parser.textAt =
        ([text "a", [], text "b c", []] : List Text)[i]?.map some :=
  parses (some (text " a , ,b c,")) (by decide)

end ParameterParser

end Forte
