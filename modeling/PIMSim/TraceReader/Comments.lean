import PIMSim.TraceReader.TraceText

/-!
# Comments of trace lines

The readers cut a line behind the semicolon of its comment, so that the semicolon is parsed as the last
character of the line. Whether the comment changes the input depends on what is made of the last part
of the line.

## Main definitions

* `commented line comment`: a line with a comment
* `parts sep line`: the number of parts of a line
* `Alike`: lines of which the reader makes the same
* `PCTxtReader.pcLine`: what the reader of a PC trace makes of a line

## Main results

* `TraceText.parseIns_semicolon`, `TraceText.functionHead_semicolon`,
  `TraceText.functionField_semicolon`, `PCTrace.ofLine_semicolon`: the lines that are parsed to the
  same with a semicolon
* `getReq_alike`: traces of lines that give the same
* `comments_iff`: the lines that give the same with a comment
-/

namespace PIMSim

open CSharp

/-- A line with a comment. -/
def commented (line comment : Line) : Line := line ++ ';' :: comment

/-- A line of a trace, without a comment. -/
structure Plain (line : Line) : Prop where
  nonempty : line ≠ []
  clean : ';' ∉ line

/-- The number of parts of a line. -/
def parts (sep : Char) (line : Line) : ℕ := (line.splitOn sep).length

/-- What the reader of a PC trace makes of a line: nothing, or a line of the trace. -/
def PCTxtReader.pcLine (pid : Int) (line : Line) : Option (Outcome PCTrace) :=
  if line.comment then none else some (PCTrace.ofLine line.cut pid)

variable {line comment p : Line} {labels : PIMLabels} {pid : Int}

/-! ### The line up to the semicolon -/

theorem Line.cut_plain (h : Plain line) : line.cut = line := by
  have hnot : line.contains [';'] = false := by
    rw [Line.contains, decide_eq_false_iff_not, List.singleton_infix_iff]
    exact h.clean
  rw [Line.cut, hnot]
  rfl

theorem Line.cut_commented (h : Plain line) (comment : Line) :
    (commented line comment).cut = line ++ [';'] := by
  have hmem : (commented line comment).contains [';'] = true := by
    rw [Line.contains, decide_eq_true_iff, List.singleton_infix_iff]
    simp [commented]
  have hidx : (commented line comment).idxOf ';' = line.length := by
    rw [commented, List.idxOf_append_of_notMem h.clean, List.idxOf_cons_self, Nat.add_zero]
  rw [Line.cut, hmem, if_pos rfl, hidx, commented, List.take_length_add_append]
  rfl

theorem Line.comment_commented (h : Plain line) (comment : Line) :
    (commented line comment).comment = line.comment := by
  cases line with
  | nil => exact absurd rfl h.nonempty
  | cons c line => rfl

theorem Line.contains_semicolon (hp : ';' ∉ p) (hne : p ≠ []) (line : Line) :
    (line ++ [';']).contains p = line.contains p :=
  decide_eq_decide.mpr (infix_append_singleton hp hne)

theorem splitOn_semicolon {sep : Char} (hsep : ';' ≠ sep) (line : Line) :
    (line ++ [';']).splitOn sep = appendLast ';' (line.splitOn sep) :=
  splitOn_append_singleton hsep line

theorem isWhiteSpace_semicolon : isWhiteSpace ';' = false := by decide

theorem parseUInt64_semicolon (s : Line) : parseUInt64 (s ++ [';']) = .error .format :=
  parseUInt64_append (by decide) (by decide) (by decide) (by decide) s

theorem parseHexUInt64_semicolon (s : Line) : parseHexUInt64 (s ++ [';']) = .error .format :=
  parseHexUInt64_append (by decide) (by decide) s

/-! ### Instructions -/

namespace TraceText

/-- The characters of the text of the operands are those of the operands. -/
theorem mem_operands {ins : Line} {i : InsText} (h : InsText.ofText ins = .ok i) {x : Char}
    (hx : x ≠ ',') (hnull : x ∉ InsText.null) :
    x ∈ trim (ins.drop (ins.idxOf ' ')) ↔ x ∈ i.operand1 ∨ x ∈ i.operand2 ∨ x ∈ i.operand3 := by
  unfold InsText.ofText at h
  split_ifs at h with hblank
  rw [mem_iff_splitOn hx]
  dsimp only at h
  split at h
  · next operand1 hsplit =>
    cases h
    simp [hsplit, hnull]
  · next operand1 operand2 hsplit =>
    cases h
    simp [hsplit, hnull]
  · next operand1 operand2 operand3 hsplit =>
    cases h
    simp [hsplit]
  · cases h

/-- The semicolon becomes a character of the last operand. -/
theorem ofText_semicolon {ins : Line} (hclean : ';' ∉ ins) {i i' : InsText}
    (h : InsText.ofText ins = .ok i) (h' : InsText.ofText (ins ++ [';']) = .ok i') :
    ¬ (i'.operand1 = i.operand1 ∧ i'.operand2 = i.operand2 ∧ i'.operand3 = i.operand3) := by
  rintro ⟨h1, h2, h3⟩
  have hblank : ' ' ∈ ins := by
    by_contra hnot
    rw [InsText.ofText, if_neg hnot] at h
    cases h
  have hdrop : (ins ++ [';']).drop ((ins ++ [';']).idxOf ' ') =
      ins.drop (ins.idxOf ' ') ++ [';'] := by
    rw [List.idxOf_append_of_mem hblank, List.drop_append_of_le_length List.idxOf_le_length]
  have hmem : ';' ∈ trim ((ins ++ [';']).drop ((ins ++ [';']).idxOf ' ')) := by
    rw [hdrop, trim_append_singleton isWhiteSpace_semicolon]
    simp
  have hnot : ';' ∉ trim (ins.drop (ins.idxOf ' ')) := fun hin =>
    hclean (List.mem_of_mem_drop (mem_of_mem_trim hin))
  rw [mem_operands h (by decide) (by decide)] at hnot
  rw [mem_operands h' (by decide) (by decide), h1, h2, h3] at hmem
  exact hnot hmem

theorem readWord_semicolon {ins i : InsText} {p : Line} (h : readWord ins p = .ok i) :
    readWord ins (p ++ [';']) = .error .format := by
  unfold readWord at h ⊢
  rw [Line.contains_semicolon (by decide) (by decide), Line.contains_semicolon (by decide) (by decide)]
  split_ifs at h ⊢
  · rw [remove_append_singleton (by decide) (by decide), parseHexUInt64_semicolon]
    rfl
  · rw [remove_append_singleton (by decide) (by decide), parseHexUInt64_semicolon]
    rfl

theorem readWords_semicolon {words : List Line} (hne : words ≠ []) {ins i : InsText}
    (h : words.foldlM readWord ins = .ok i) :
    (appendLast ';' words).foldlM readWord ins = .error .format := by
  induction words generalizing ins with
  | nil => exact absurd rfl hne
  | cons p words ih =>
    rw [List.foldlM_cons] at h
    obtain ⟨ins', hins', h⟩ := Outcome.bind_eq_ok.mp h
    cases words with
    | nil =>
      rw [appendLast, List.foldlM_cons, readWord_semicolon hins']
      rfl
    | cons q words =>
      rw [appendLast, List.foldlM_cons, hins']
      exact ih (List.cons_ne_nil q words) h

theorem readAccess_nil (ins : InsText) : readAccess ins [] = .ok { ins with kind := .calculation } := rfl

/-- A semicolon does not make a text an instruction that was none. -/
theorem ofText_returns_semicolon {ins : Line} (h : ∃ i, InsText.ofText (ins ++ [';']) = .ok i) :
    ∃ i, InsText.ofText ins = .ok i := by
  obtain ⟨hblank, hcount⟩ := InsText.ofText_returns.mp h
  have hblank : ' ' ∈ ins := by simpa using hblank
  refine InsText.ofText_returns.mpr ⟨hblank, ?_⟩
  rw [List.idxOf_append_of_mem hblank, List.drop_append_of_le_length List.idxOf_le_length,
    List.count_append] at hcount
  exact (Nat.le_add_right _ _).trans hcount

theorem orNull_parseHex {s : Line} {e : Fault} (h : parseHexUInt64 s = .error e) {α : Type} :
    orNull (.error e : Outcome α) = .ok none := by
  rcases parseHexUInt64_error h with rfl | rfl <;> rfl

/-- A word that fails does so with a semicolon as well. -/
theorem readWord_fails_semicolon {ins : InsText} {p : Line} {e : Fault}
    (h : readWord ins p = .error e) (α : Type) :
    ∃ e', readWord ins (p ++ [';']) = .error e' ∧
      orNull (.error e' : Outcome α) = orNull (.error e) := by
  unfold readWord at h ⊢
  rw [Line.contains_semicolon (by decide) (by decide), Line.contains_semicolon (by decide) (by decide)]
  split_ifs at h ⊢
  · rw [remove_append_singleton (by decide) (by decide), parseHexUInt64_semicolon]
    cases hparse : parseHexUInt64 (remove ['A', '=', '0', 'x'] p) with
    | ok v =>
      rw [hparse] at h
      cases h
    | error e' =>
      rw [hparse] at h
      cases h
      exact ⟨.format, rfl, (orNull_parseHex hparse).symm⟩
  · rw [remove_append_singleton (by decide) (by decide), parseHexUInt64_semicolon]
    cases hparse : parseHexUInt64 (remove ['D', '=', '0', 'x'] p) with
    | ok v =>
      rw [hparse] at h
      cases h
    | error e' =>
      rw [hparse] at h
      cases h
      exact ⟨.format, rfl, (orNull_parseHex hparse).symm⟩
  · cases h
    exact ⟨_, rfl, rfl⟩

theorem readWords_fails_semicolon {words : List Line} {ins : InsText} {e : Fault}
    (h : words.foldlM readWord ins = .error e) (α : Type) :
    ∃ e', (appendLast ';' words).foldlM readWord ins = .error e' ∧
      orNull (.error e' : Outcome α) = orNull (.error e) := by
  induction words generalizing ins with
  | nil => cases h
  | cons p words ih =>
    rw [List.foldlM_cons] at h
    cases words with
    | nil =>
      cases hword : readWord ins p with
      | ok ins' =>
        rw [hword] at h
        cases h
      | error e' =>
        rw [hword] at h
        cases h
        obtain ⟨e', he', heq⟩ := readWord_fails_semicolon hword α
        exact ⟨e', by rw [appendLast, List.foldlM_cons, he']; rfl, heq⟩
    | cons q words =>
      rw [appendLast, List.foldlM_cons]
      cases hword : readWord ins p with
      | ok ins' =>
        rw [hword] at h
        exact ih h
      | error e' =>
        rw [hword] at h
        exact ⟨e', rfl, by cases h; rfl⟩

/-- A line that is no instruction is none with a semicolon either. -/
theorem parseIns_fails_semicolon (h : ∀ i, parseIns labels pid line ≠ .ok (some i)) :
    parseIns labels pid (line ++ [';']) = parseIns labels pid line := by
  unfold parseIns at h ⊢
  rw [splitOn_semicolon (by decide)]
  match hsplit : line.splitOn '|' with
  | [] | [a] => rfl
  | [a, b] =>
    rw [hsplit] at h
    by_cases hread : (∀ i, InsText.ofText b ≠ .ok i) ∨ ∀ c, parseUInt64 a ≠ .ok c
    · rw [parseParts_fails [] hread, appendLast, appendLast]
      refine parseParts_fails [] (hread.imp_left fun hb i hi => ?_)
      obtain ⟨i, hi⟩ := ofText_returns_semicolon ⟨i, hi⟩
      exact hb i hi
    · push Not at hread
      obtain ⟨⟨ins, hins⟩, cycle, hcycle⟩ := hread
      refine absurd ?_ (h { ins with
        cycle, pid, pim := labels.pim ins.operation, kind := .calculation })
      rw [orNull_eq_some, parseParts, hins, hcycle]
      rfl
  | [a, b, c] => rfl
  | [a, b, c, d] =>
    rw [hsplit] at h
    by_cases hread : (∀ i, InsText.ofText b ≠ .ok i) ∨ ∀ c, parseUInt64 a ≠ .ok c
    · rw [parseParts_fails [c, d] hread]
      exact parseParts_fails [c, d ++ [';']] hread
    · push Not at hread
      obtain ⟨⟨ins, hins⟩, cycle, hcycle⟩ := hread
      simp only [appendLast, parseParts, hins, hcycle, Outcome.ok_bind, readAccess, ne_eq,
        orNull_eq_some] at h ⊢
      rw [splitOn_semicolon (by decide)]
      cases hwords : (d.splitOn ' ').foldlM readWord
          { ins with
            cycle, pid, pim := labels.pim ins.operation
            kind := if c = ['R'] then InsKind.read else InsKind.write, isMem := false } with
      | ok i => exact absurd hwords (h i)
      | error e =>
        obtain ⟨e', he', heq⟩ := readWords_fails_semicolon hwords InsText
        rw [he']
        exact heq
  | a :: b :: c :: d :: e :: rest => rfl

/-- The last part of an instruction has to be one that is not read. -/
theorem parseIns_some_semicolon (hclean : ';' ∉ line) {i : InsText}
    (h : parseIns labels pid line = .ok (some i)) :
    parseIns labels pid (line ++ [';']) = parseIns labels pid line ↔
      parts '|' line = 3 ∨ 5 ≤ parts '|' line := by
  rw [h]
  unfold parseIns at h ⊢
  unfold parts
  rw [orNull_eq_some] at h ⊢
  rw [splitOn_semicolon (by decide)]
  have hparts : ∀ part ∈ line.splitOn '|', ';' ∉ part := fun part hpart hin =>
    hclean ((mem_iff_splitOn (by decide)).mpr ⟨part, hpart, hin⟩)
  match hsplit : line.splitOn '|' with
  | [] | [a] =>
    rw [hsplit] at h
    cases h
  | [a, b] =>
    -- the last operand
    refine iff_of_false (fun h' => ?_) (by simp)
    rw [hsplit] at h hparts
    obtain ⟨ins, hins, hrest⟩ := Outcome.bind_eq_ok.mp h
    obtain ⟨cycle, -, heq⟩ := Outcome.bind_eq_ok.mp hrest
    obtain ⟨ins', hins', hrest'⟩ := Outcome.bind_eq_ok.mp h'
    obtain ⟨cycle', -, heq'⟩ := Outcome.bind_eq_ok.mp hrest'
    rw [readAccess_nil] at heq heq'
    have hi := heq'.trans heq.symm
    have h1 := congrArg InsText.operand1 (Except.ok.inj hi)
    have h2 := congrArg InsText.operand2 (Except.ok.inj hi)
    have h3 := congrArg InsText.operand3 (Except.ok.inj hi)
    exact ofText_semicolon (hparts b (by simp)) hins hins' ⟨h1, h2, h3⟩
  | [a, b, c] =>
    rw [hsplit] at h
    exact iff_of_true h (by simp)
  | [a, b, c, d] =>
    -- the last word of the data and the address
    refine iff_of_false (fun h' => ?_) (by simp)
    rw [hsplit] at h
    obtain ⟨ins, hins, hrest⟩ := Outcome.bind_eq_ok.mp h
    obtain ⟨cycle, hcycle, hwords⟩ := Outcome.bind_eq_ok.mp hrest
    obtain ⟨ins', hins', hrest'⟩ := Outcome.bind_eq_ok.mp h'
    obtain ⟨cycle', hcycle', hwords'⟩ := Outcome.bind_eq_ok.mp hrest'
    cases hins.symm.trans hins'
    cases hcycle.symm.trans hcycle'
    have hfail := readWords_semicolon (List.splitOn_ne_nil _ _) hwords
    rw [← splitOn_semicolon (by decide)] at hfail
    cases hfail.symm.trans hwords'
  | a :: b :: c :: d :: e :: rest =>
    rw [hsplit] at h
    exact iff_of_true h (by simp)

/-- **A line of an instruction with a semicolon**: the last part of an instruction is not read. -/
theorem parseIns_semicolon (hclean : ';' ∉ line) :
    parseIns labels pid (line ++ [';']) = parseIns labels pid line ↔
      ((∃ i, parseIns labels pid line = .ok (some i)) → parts '|' line = 3 ∨ 5 ≤ parts '|' line) := by
  by_cases hsome : ∃ i, parseIns labels pid line = .ok (some i)
  · obtain ⟨i, hi⟩ := hsome
    rw [parseIns_some_semicolon hclean hi]
    exact ⟨fun h _ => h, fun h => h ⟨i, hi⟩⟩
  · refine iff_of_true (parseIns_fails_semicolon fun i hi => hsome ⟨i, hi⟩) fun h => ?_
    exact absurd h hsome

/-! ### Functions -/

/-- The second part of a line with a semicolon. -/
theorem arrayAt_one_semicolon {parts : List Line} {s : Line} (h : arrayAt parts 1 = .ok s) :
    arrayAt (appendLast ';' parts) 1 = .ok (if 3 ≤ parts.length then s else s ++ [';']) := by
  match parts with
  | [] | [_] => cases h
  | [a, b] =>
    cases h
    rfl
  | a :: b :: c :: rest =>
    cases h
    rw [if_pos (by simp)]
    rfl

theorem arrayAt_one_fails_semicolon {parts : List Line} {e : Fault} (h : arrayAt parts 1 = .error e) :
    arrayAt (appendLast ';' parts) 1 = .error e := by
  match parts with
  | [] | [_] => exact h
  | _ :: _ :: _ => cases h

/-- **The head of a function with a semicolon**: the last part of the line is not the name. -/
theorem functionHead_semicolon (line : Line) :
    functionHead (line ++ [';']) = functionHead line ↔
      ((∃ f, functionHead line = .ok f) → 3 ≤ parts '_' line) := by
  unfold functionHead
  by_cases hbar : '|' ∈ line
  · have hbar' : '|' ∈ line ++ [';'] := List.mem_append_left _ hbar
    have htake : (line ++ [';']).take ((line ++ [';']).idxOf '|') = line.take (line.idxOf '|') := by
      rw [List.idxOf_append_of_mem hbar, List.take_append_of_le_length List.idxOf_le_length]
    simp only [hbar, hbar', not_true_eq_false, if_false, htake]
    cases parseUInt64 (line.take (line.idxOf '|')) with
    | error e => exact iff_of_true rfl (by simp)
    | ok cycle =>
      simp only [Outcome.ok_bind]
      rw [splitOn_semicolon (by decide)]
      cases hname : arrayAt (line.splitOn '_') 1 with
      | error e =>
        rw [arrayAt_one_fails_semicolon hname]
        exact iff_of_true rfl (by simp)
      | ok name =>
        rw [arrayAt_one_semicolon hname]
        unfold parts
        split_ifs with hparts
        · exact iff_of_true rfl fun _ => hparts
        · refine iff_of_false (fun h => ?_) fun h => hparts (h ⟨_, rfl⟩)
          have hlen := congrArg (fun f => f.name.length) (Except.ok.inj h)
          simp at hlen
  · have hbar' : '|' ∉ line ++ [';'] := by simpa using hbar
    rw [if_pos hbar, if_pos hbar']
    exact iff_of_true rfl (by simp)

/-- **A field with a semicolon**: the last part of the line is not the value. -/
theorem functionField_semicolon {f f' : FunctionText} (h : functionField f line = .ok f') :
    functionField f (line ++ [';']) = functionField f line ↔ 3 ≤ parts '=' line := by
  rw [h]
  unfold functionField at h ⊢
  unfold parts
  rw [splitOn_semicolon (by decide)]
  match hsplit : line.splitOn '=' with
  | [] => exact absurd hsplit (List.splitOn_ne_nil _ _)
  | [a] =>
    have hzero : arrayAt [a] 0 = .ok a := rfl
    have hone : arrayAt [a] 1 = .error .indexOutOfRange := rfl
    rw [hsplit] at h
    simp only [hzero, hone, Outcome.ok_bind, Outcome.error_bind] at h
    split_ifs at h
  | [a, b] =>
    -- the value
    refine iff_of_false (fun h' => ?_) (by simp)
    have hzero : arrayAt (appendLast ';' [a, b]) 0 = .ok a := rfl
    have hone : arrayAt (appendLast ';' [a, b]) 1 = .ok (b ++ [';']) := rfl
    have hremove : remove ['0', 'x'] (b ++ [';']) = remove ['0', 'x'] b ++ [';'] :=
      remove_append_singleton (by decide) (by decide) b
    simp only [hzero, hone, hremove, Outcome.ok_bind, parseUInt64_semicolon,
      parseHexUInt64_semicolon, Outcome.error_bind] at h'
    split_ifs at h'
  | a :: b :: c :: rest =>
    rw [hsplit] at h
    exact iff_of_true h (by simp)

end TraceText

/-! ### Lines of a PC trace -/

theorem grabHex_semicolon (v : ℕ) (s : Line) :
    grabHex v (s ++ [';']) = ((grabHex v s).1, (grabHex v s).2 ++ [';']) := by
  induction s generalizing v with
  | nil => rfl
  | cons c s ih =>
    rw [List.cons_append, grabHex, grabHex]
    cases hexDigit c with
    | none => rfl
    | some d => exact ih _

/-- The sign and the prefix of a base-sixteen number are not affected by a semicolon. -/
theorem strip_semicolon (s : Line) :
    ∃ s', (if (s ++ [';']).take 2 = ['0', 'x'] ∨ (s ++ [';']).take 2 = ['0', 'X'] then
      (s ++ [';']).drop 2 else s ++ [';']) = s' ++ [';'] := by
  split_ifs with h
  · match s with
    | [] => simp at h
    | [c] => simp at h
    | c :: d :: s => exact ⟨s, rfl⟩
  · exact ⟨s, rfl⟩

theorem hexToUInt64_semicolon (s : Line) (v : UInt64) : hexToUInt64 (s ++ [';']) ≠ .ok v := by
  have hread : ∀ s : Line, (if (grabHex 0 (s ++ [';'])).2.length = (s ++ [';']).length then
        (.error .format : Outcome UInt64)
      else if 2 ^ 64 ≤ (grabHex 0 (s ++ [';'])).1 then .error .overflow
      else if (grabHex 0 (s ++ [';'])).2 ≠ [] then .error .format
      else .ok (UInt64.ofNat (grabHex 0 (s ++ [';'])).1)) ≠ .ok v := by
    intro s
    rw [grabHex_semicolon]
    dsimp only
    split_ifs with h1 h2 h3
    · simp
    · simp
    · simp
    · simp at h3
  unfold hexToUInt64
  split
  · simp
  · simp
  · next c cs _ heq =>
    dsimp only
    have hsign : ∃ s', (if c = '+' then cs else c :: cs) = s' ++ [';'] := by
      cases s with
      | nil =>
        cases heq
        exact ⟨[], rfl⟩
      | cons d s =>
        cases heq
        split_ifs
        · exact ⟨s, rfl⟩
        · exact ⟨c :: s, rfl⟩
    obtain ⟨s', hs'⟩ := hsign
    rw [hs']
    obtain ⟨s'', hs''⟩ := strip_semicolon s'
    rw [hs'']
    exact hread s''

/-- **A line of a PC trace with a semicolon**: a blank has to follow the second word. -/
theorem PCTrace.ofLine_semicolon {t : PCTrace} (h : PCTrace.ofLine line pid = .ok t) :
    PCTrace.ofLine (line ++ [';']) pid = PCTrace.ofLine line pid ↔ 3 ≤ parts ' ' line := by
  rw [h]
  unfold PCTrace.ofLine at h ⊢
  unfold parts
  rw [splitOn_semicolon (by decide)]
  match hsplit : line.splitOn ' ' with
  | [] => exact absurd hsplit (List.splitOn_ne_nil _ _)
  | [a] =>
    rw [hsplit] at h
    obtain ⟨_, -, h⟩ := Outcome.bind_eq_ok.mp h
    obtain ⟨_, -, h⟩ := Outcome.bind_eq_ok.mp h
    cases h
  | [a, b] =>
    refine iff_of_false (fun h' => ?_) (by simp)
    obtain ⟨_, -, h'⟩ := Outcome.bind_eq_ok.mp h'
    obtain ⟨_, -, h'⟩ := Outcome.bind_eq_ok.mp h'
    obtain ⟨_, hword, h'⟩ := Outcome.bind_eq_ok.mp h'
    obtain ⟨v, hv, -⟩ := Outcome.bind_eq_ok.mp h'
    cases hword
    exact hexToUInt64_semicolon b v hv
  | a :: b :: c :: rest =>
    rw [hsplit] at h
    exact iff_of_true h (by simp)

/-! ### Lines with comments -/

namespace TraceText

theorem topLine_commented (h : Plain line) (comment : Line) :
    topLine labels pid (commented line comment) =
      match topLine labels pid line with
      | .comment => .comment
      | .ins _ => .ins (parseIns labels pid (line ++ [';']))
      | .block _ => .block (remove ('_' :: Line.startLabel) (remove Line.pimLabel (line ++ [';'])))
      | .function _ => .function (functionHead (line ++ [';'])) := by
  unfold topLine
  rw [Line.comment_commented h, Line.cut_commented h, Line.cut_plain h]
  dsimp only
  simp only [Line.contains_semicolon (p := Line.pimLabel) (by decide) (by decide),
    Line.contains_semicolon (p := Line.startLabel) (by decide) (by decide),
    Line.contains_semicolon (p := Line.endLabel) (by decide) (by decide),
    Line.contains_semicolon (p := '_' :: Line.startLabel) (by decide) (by decide),
    Line.contains_semicolon (p := Line.functionLabel) (by decide) (by decide)]
  split_ifs <;> rfl

theorem topLine_ins_eq (h : Plain line) {r : Outcome (Option InsText)}
    (hline : topLine labels pid line = .ins r) : parseIns labels pid line = r := by
  unfold topLine at hline
  rw [Line.cut_plain h] at hline
  dsimp only at hline
  split_ifs at hline
  · exact TopLine.ins.inj hline
  · exact TopLine.ins.inj hline

theorem topLine_function_eq (h : Plain line) {r : Outcome FunctionText}
    (hline : topLine labels pid line = .function r) : functionHead line = r := by
  unfold topLine at hline
  rw [Line.cut_plain h] at hline
  dsimp only at hline
  split_ifs at hline
  exact TopLine.function.inj hline

theorem blockLine_member_eq (h : Plain line) {r : Outcome (Option InsText)}
    (hline : blockLine labels pid line = .member r) :
    line.comment = false ∧ parseIns labels pid line = r := by
  unfold blockLine at hline
  rw [Line.cut_plain h] at hline
  split_ifs at hline with hcomment
  exact ⟨by simpa using hcomment, BlockLine.member.inj hline⟩

/-- The line without blanks, up to its comment. -/
theorem squeeze_commented (line comment : Line) :
    (commented line comment).squeeze = commented line.squeeze comment.squeeze := by
  unfold commented Line.squeeze
  rw [List.filter_append, List.filter_cons_of_pos (by decide)]

/-- A field that is read is not empty without its blanks. -/
theorem squeeze_plain {f f' : FunctionText} (hclean : ';' ∉ line)
    (h : functionField f line.squeeze = .ok f') : Plain line.squeeze where
  nonempty hnil := by
    rw [hnil] at h
    cases h
  clean hin := hclean (List.mem_of_mem_filter hin)

theorem functionLine_field_eq {f f' : FunctionText} (hclean : ';' ∉ line)
    (hline : functionLine f line = .field (.ok f')) :
    line.squeeze.comment = false ∧ functionField f line.squeeze = .ok f' := by
  have hcut : line.squeeze.cut = line.squeeze := by
    have hnot : line.squeeze.contains [';'] = false := by
      rw [Line.contains, decide_eq_false_iff_not, List.singleton_infix_iff]
      exact fun hin => hclean (List.mem_of_mem_filter hin)
    rw [Line.cut, hnot]
    rfl
  unfold functionLine at hline
  dsimp only at hline
  rw [hcut] at hline
  split_ifs at hline with hcomment
  exact ⟨by simpa using hcomment, FunctionLine.field.inj hline⟩

/-- A line of an instruction with a comment. -/
theorem topLine_ins_commented (h : Plain line) {r : Outcome (Option InsText)}
    (hline : topLine labels pid line = .ins r) (comment : Line) :
    topLine labels pid (commented line comment) = topLine labels pid line ↔
      ((∃ i, r = .ok (some i)) → parts '|' line = 3 ∨ 5 ≤ parts '|' line) := by
  have hparse := topLine_ins_eq h hline
  rw [topLine_commented h, hline, ← hparse, ← parseIns_semicolon h.clean]
  exact TopLine.ins.injEq _ _ ▸ Iff.rfl

/-- The head of a function with a comment. -/
theorem topLine_function_commented (h : Plain line) {r : Outcome FunctionText}
    (hline : topLine labels pid line = .function r) (comment : Line) :
    topLine labels pid (commented line comment) = topLine labels pid line ↔
      ((∃ f, r = .ok f) → 3 ≤ parts '_' line) := by
  have hhead := topLine_function_eq h hline
  rw [topLine_commented h, hline, ← hhead, ← functionHead_semicolon]
  exact TopLine.function.injEq _ _ ▸ Iff.rfl

/-- A member of a block with a comment. The comment itself can make it the end of the block. -/
theorem blockLine_commented (h : Plain line) {r : Outcome (Option InsText)}
    (hline : blockLine labels pid line = .member r) (comment : Line) :
    blockLine labels pid (commented line comment) = blockLine labels pid line ↔
      ((∃ i, r = .ok (some i)) → parts '|' line = 3 ∨ 5 ≤ parts '|' line) ∧
        ¬ ((commented line comment).contains Line.pimLabel ∧
          (commented line comment).contains Line.endLabel) := by
  obtain ⟨hcomment, hparse⟩ := blockLine_member_eq h hline
  rw [hline, ← hparse, ← parseIns_semicolon h.clean, ← Bool.and_eq_true]
  unfold blockLine
  rw [Line.comment_commented h, hcomment, Line.cut_commented h]
  by_cases hend : ((commented line comment).contains Line.pimLabel &&
      (commented line comment).contains Line.endLabel) = true
  · simp [hend]
  · simp [hend]

/-- A field of a function with a comment. The comment itself can make it the end of the function. -/
theorem functionLine_commented (hclean : ';' ∉ line) {f f' : FunctionText}
    (hline : functionLine f line = .field (.ok f')) (comment : Line) :
    functionLine f (commented line comment) = functionLine f line ↔
      3 ≤ parts '=' line.squeeze ∧
        ¬ ((commented line comment).squeeze.contains Line.functionLabel ∧
          (commented line comment).squeeze.contains ('_' :: Line.endLabel)) := by
  obtain ⟨hcomment, hfield⟩ := functionLine_field_eq hclean hline
  have hplain := squeeze_plain hclean hfield
  rw [hline, ← functionField_semicolon hfield, hfield, ← Bool.and_eq_true]
  unfold functionLine
  dsimp only
  rw [squeeze_commented, Line.comment_commented hplain, hcomment, Line.cut_commented hplain]
  by_cases hend : ((commented line.squeeze comment.squeeze).contains Line.functionLabel &&
      (commented line.squeeze comment.squeeze).contains ('_' :: Line.endLabel)) = true
  · simp [hend]
  · simp [hend]

theorem contains_commented (line comment p : Line) (h : line.contains p = true) :
    (commented line comment).contains p = true := by
  rw [Line.contains, decide_eq_true_iff] at h ⊢
  exact h.trans (List.prefix_append line _).isInfix

/-- The end of a function with a comment. -/
theorem functionLine_finish (hclean : ';' ∉ line) {f : FunctionText}
    (hline : functionLine f line = .finish) (comment : Line) :
    functionLine f (commented line comment) = .finish := by
  unfold functionLine at hline ⊢
  dsimp only at hline ⊢
  split_ifs at hline with hcomment hend
  rw [Bool.and_eq_true] at hend
  have hplain : Plain line.squeeze := by
    refine ⟨fun hnil => ?_, fun hin => hclean (List.mem_of_mem_filter hin)⟩
    rw [hnil] at hend
    exact absurd hend.1 (by decide)
  rw [squeeze_commented, Line.comment_commented hplain, if_neg hcomment,
    contains_commented _ _ _ hend.1, contains_commented _ _ _ hend.2]
  rfl

end TraceText

/-- A line of a PC trace with a comment. -/
theorem PCTxtReader.pcLine_commented (h : Plain line) {t : PCTrace}
    (hline : PCTxtReader.pcLine pid line = some (.ok t)) (comment : Line) :
    PCTxtReader.pcLine pid (commented line comment) = PCTxtReader.pcLine pid line ↔
      3 ≤ parts ' ' line := by
  unfold PCTxtReader.pcLine at hline ⊢
  rw [Line.comment_commented h, Line.cut_commented h]
  rw [Line.cut_plain h] at hline ⊢
  split_ifs at hline ⊢
  rw [Option.some.injEq, PCTrace.ofLine_semicolon (Option.some.inj hline)]

open TraceText

/-- Two lines of which all loops of the reader make the same. -/
structure Alike (labels : PIMLabels) (pid : Int) (line line' : Line) : Prop where
  top : topLine labels pid line' = topLine labels pid line
  block : blockLine labels pid line' = blockLine labels pid line
  function : ∀ f, functionLine f line' = functionLine f line

section Traces

variable {maxBlock : Int} {lines lines' : List Line}

theorem readBlock_alike (h : List.Forall₂ (Alike labels pid) lines lines') (b : BlockText) (size : ℕ) :
    (readBlock labels maxBlock pid b size lines').map Prod.fst =
      (readBlock labels maxBlock pid b size lines).map Prod.fst := by
  induction h generalizing b size with
  | nil => rfl
  | cons hline _ ih =>
    unfold readBlock
    rw [hline.block]
    split
    · exact ih b size
    · rfl
    · next r _ =>
      cases r with
      | error e => rfl
      | ok ins =>
        simp only [Outcome.ok_bind]
        cases b.addIns ins with
        | error e => rfl
        | ok b' =>
          simp only [Outcome.ok_bind]
          split_ifs
          · rfl
          · exact ih b' (size + 1)

theorem readFunction_alike (h : List.Forall₂ (Alike labels pid) lines lines') (f : FunctionText) :
    (readFunction f lines').map Prod.fst = (readFunction f lines).map Prod.fst := by
  induction h generalizing f with
  | nil => rfl
  | cons hline _ ih =>
    unfold readFunction
    rw [hline.function]
    split
    · exact ih f
    · rfl
    · next r _ =>
      cases r with
      | error e => rfl
      | ok f' => exact ih f'

/-- **The input of a request** is the same when the lines are alike. -/
theorem getReq_alike (h : List.Forall₂ (Alike labels pid) lines lines') :
    (getReq labels maxBlock pid lines').map Prod.fst =
      (getReq labels maxBlock pid lines).map Prod.fst := by
  induction h with
  | nil => rfl
  | cons hline hrest ih =>
    unfold getReq
    rw [hline.top]
    split
    · exact ih
    · next r _ => cases r <;> rfl
    · exact readBlock_alike hrest _ 0
    · next r _ =>
      cases r with
      | error e => rfl
      | ok f => exact readFunction_alike hrest f

end Traces

/-- **Comments, exactly**: the lines that give the same with a comment as without: the lines of
instructions, the members of a block, the heads, the fields and the ends of functions, and the lines of
a PC trace. -/
theorem comments_iff (labels : PIMLabels) (pid : Int) :
    (∀ line comment r, Plain line → topLine labels pid line = .ins r →
      (topLine labels pid (commented line comment) = topLine labels pid line ↔
        ((∃ i, r = .ok (some i)) → parts '|' line = 3 ∨ 5 ≤ parts '|' line))) ∧
    (∀ line comment r, Plain line → blockLine labels pid line = .member r →
      (blockLine labels pid (commented line comment) = blockLine labels pid line ↔
        ((∃ i, r = .ok (some i)) → parts '|' line = 3 ∨ 5 ≤ parts '|' line) ∧
          ¬ ((commented line comment).contains Line.pimLabel ∧
            (commented line comment).contains Line.endLabel))) ∧
    (∀ line comment r, Plain line → topLine labels pid line = .function r →
      (topLine labels pid (commented line comment) = topLine labels pid line ↔
        ((∃ f, r = .ok f) → 3 ≤ parts '_' line))) ∧
    (∀ line comment f f', Plain line → functionLine f line = .field (.ok f') →
      (functionLine f (commented line comment) = functionLine f line ↔
        3 ≤ parts '=' line.squeeze ∧
          ¬ ((commented line comment).squeeze.contains Line.functionLabel ∧
            (commented line comment).squeeze.contains ('_' :: Line.endLabel)))) ∧
    (∀ line comment f, Plain line → functionLine f line = .finish →
      functionLine f (commented line comment) = functionLine f line) ∧
    ∀ line comment t, Plain line → PCTxtReader.pcLine pid line = some (.ok t) →
      (PCTxtReader.pcLine pid (commented line comment) = PCTxtReader.pcLine pid line ↔
        3 ≤ parts ' ' line) := by
  refine ⟨?_, ?_, ?_, ?_, ?_, ?_⟩
  · exact fun line comment r h hline => topLine_ins_commented h hline comment
  · exact fun line comment r h hline => blockLine_commented h hline comment
  · exact fun line comment r h hline => topLine_function_commented h hline comment
  · exact fun line comment f f' h hline => functionLine_commented h.clean hline comment
  · exact fun line comment f h hline => (functionLine_finish h.clean hline comment).trans hline.symm
  · exact fun line comment t h hline => PCTxtReader.pcLine_commented h hline comment

/-- A comment changes an operand of `1|addi rsp, 8`, makes the field `input=0x10` of a function throw,
and makes the line `10 20` of a PC trace throw. -/
theorem not_transparent_addi :
    topLine {} 0 (commented "1|addi rsp, 8".toList " x".toList) ≠
        topLine {} 0 "1|addi rsp, 8".toList ∧
      functionLine {} (commented "input=0x10".toList " x".toList) ≠
        functionLine {} "input=0x10".toList ∧
      PCTxtReader.pcLine 0 (commented "10 20".toList "x".toList) ≠
        PCTxtReader.pcLine 0 "10 20".toList := by
  refine ⟨fun h => ?_, fun h => ?_, fun h => ?_⟩
  · have hline : topLine {} 0 "1|addi rsp, 8".toList = .ins (.ok (some {
        cycle := 1, operation := "addi".toList, operand1 := "rsp".toList, operand2 := " 8".toList })) :=
      rfl
    have hcommented : topLine {} 0 (commented "1|addi rsp, 8".toList " x".toList) =
        .ins (.ok (some {
          cycle := 1, operation := "addi".toList, operand1 := "rsp".toList,
          operand2 := " 8;".toList })) := rfl
    cases hcommented.symm.trans (h.trans hline)
  · have hline : functionLine {} "input=0x10".toList = .field (.ok { input := [16] }) := rfl
    have hcommented : functionLine {} (commented "input=0x10".toList " x".toList) =
        .field (.error .format) := rfl
    cases hcommented.symm.trans (h.trans hline)
  · have hline : PCTxtReader.pcLine 0 "10 20".toList = some (.ok { pc := 16, combination := 32, id := 0 }) :=
      rfl
    have hcommented : PCTxtReader.pcLine 0 (commented "10 20".toList "x".toList) =
        some (.error .format) := rfl
    cases hcommented.symm.trans (h.trans hline)

end PIMSim
