import PIMSim.TraceReader.TraceText

/-!
# Documented instruction lines

An instruction line holds a cycle, an operation with its operands, and for a memory access its
direction, data and address: `0|ld t1, SS:[rsp]|R|D=0x01 A=0x7de1` or `1|addi rsp, rsp, 0x8`. The
operands are the texts between the commas.

## Main definitions

* `Decimal`, `Hexadecimal`: the numbers of a line
* `Access`: the direction, the data and the address of a line
* `DocLine`: an instruction line, and its text `DocLine.render`
* `DocLine.meaning`: the instruction of the line

## Main results

* `DocLine.ofText_text`: the operation and the operands of the line
* `DocLine.parseIns_render`: a line with one to three operands is parsed to its instruction
-/

namespace PIMSim

open CSharp TraceText

/-- A number in base ten, as a text of digits. -/
structure Decimal where
  text : Line
  nonempty : text ≠ []
  digits : ∀ c ∈ text, c.isDigit = true
  small : Nat.ofDigitChars 10 text 0 < 2 ^ 64

def Decimal.value (d : Decimal) : UInt64 := UInt64.ofNat (Nat.ofDigitChars 10 d.text 0)

/-- A number in base sixteen, as a text of digits. -/
structure Hexadecimal where
  text : Line
  nonempty : text ≠ []
  digits : ∀ c ∈ text, (hexValue c).isSome = true
  small : hexNumber 0 text < 2 ^ 64

def Hexadecimal.value (d : Hexadecimal) : UInt64 := UInt64.ofNat (hexNumber 0 d.text)

/-- A memory access. -/
structure Access where
  write : Bool
  data : Hexadecimal
  address : Hexadecimal

/-- `R` or `W`. -/
def Access.direction (a : Access) : Line := if a.write then ['W'] else ['R']

def Access.kind (a : Access) : InsKind := if a.write then .write else .read

def Access.dataWord (a : Access) : Line := ['D', '=', '0', 'x'] ++ a.data.text

def Access.addressWord (a : Access) : Line := ['A', '=', '0', 'x'] ++ a.address.text

/-- The words of the data and the address. -/
def Access.text (a : Access) : Line := a.dataWord ++ ' ' :: a.addressWord

/-- The text of an operation with its operands. Blanks may follow. -/
def insText (operation : Line) (operands : List Line) (pad : Line) : Line :=
  if operands = [] then operation
  else operation ++ ' ' :: ([','].intercalate operands ++ pad)

/-- An instruction line, without a comment and not one that starts a block or a function. -/
structure DocLine where
  cycle : Decimal
  operation : Line
  operands : List Line
  pad : Line := []
  access : Option Access := none
  word : ∀ c ∈ operation, isWhiteSpace c = false ∧ c ≠ '|' ∧ c ≠ ';'
  texts : ∀ o ∈ operands, ',' ∉ o ∧ '|' ∉ o ∧ ';' ∉ o
  blanks : ∀ c ∈ pad, isWhiteSpace c = true
  trimmed : trim ([','].intercalate operands) = [','].intercalate operands
  inner : ¬ '_' :: Line.startLabel <:+: insText operation operands pad

namespace DocLine

variable (d : DocLine)

/-- The operation with its operands. -/
def text : Line := insText d.operation d.operands d.pad

/-- The parts of the line. -/
def parts : List Line :=
  d.cycle.text :: d.text :: d.access.elim [] fun a => [a.direction, a.text]

/-- The line. -/
def render : Line := ['|'].intercalate d.parts

/-- An operand of the line. -/
def operand (k : ℕ) : Line := d.operands.getD k InsText.null

/-- The instruction of the line. -/
def meaning (labels : PIMLabels) (pid : Int) : InsText where
  cycle := d.cycle.value
  pid := pid
  pim := labels.pim d.operation
  kind := d.access.elim .calculation Access.kind
  address := d.access.elim 0 fun a => a.address.value
  data := d.access.elim 0 fun a => a.data.value
  isMem := d.access.isSome
  operation := d.operation
  operand1 := d.operand 0
  operand2 := d.operand 1
  operand3 := d.operand 2

/-! ### The operation and the operands -/

variable {d}

theorem blank_not_mem_operation : ' ' ∉ d.operation := fun h =>
  absurd (d.word ' ' h).1 (by decide)

theorem text_eq (hne : d.operands ≠ []) :
    d.text = d.operation ++ ' ' :: ([','].intercalate d.operands ++ d.pad) :=
  if_neg hne

/-- **The operation and the operands of a line** with one to three operands. -/
theorem ofText_text (hpos : 1 ≤ d.operands.length) (hle : d.operands.length ≤ 3) :
    InsText.ofText d.text = .ok {
      operation := d.operation, operand1 := d.operand 0, operand2 := d.operand 1,
      operand3 := d.operand 2 } := by
  have hne : d.operands ≠ [] := List.length_pos_iff.mp hpos
  have hmem : ' ' ∈ d.text := by
    rw [text_eq hne]
    simp
  have hidx : d.text.idxOf ' ' = d.operation.length := by
    rw [text_eq hne, List.idxOf_append_of_notMem blank_not_mem_operation, List.idxOf_cons_self,
      Nat.add_zero]
  -- The operation is what stands before the first blank.
  have hoperation : remove [' '] (trim (d.text.take (d.text.idxOf ' ' + 1))) = d.operation := by
    have htake : d.text.take (d.operation.length + 1) = d.operation ++ [' '] := by
      rw [text_eq hne, List.take_length_add_append]
      rfl
    have htrim : trim (d.operation ++ [' ']) = d.operation := by
      have h : trim ([] ++ d.operation ++ [' ']) = trim d.operation :=
        trim_append (by simp) (List.forall_mem_singleton.mpr isWhiteSpace_blank) d.operation
      rw [List.nil_append] at h
      rw [h, trim_of_forall fun c hc => (d.word c hc).1]
    rw [hidx, htake, htrim]
    refine remove_of_absent ?_
    rw [List.singleton_infix_iff]
    exact blank_not_mem_operation
  -- What follows it is split at the commas.
  have hinst : trim (d.text.drop (d.text.idxOf ' ')) = [','].intercalate d.operands := by
    have hdrop : d.text.drop d.operation.length =
        [' '] ++ [','].intercalate d.operands ++ d.pad := by
      rw [text_eq hne, List.drop_left]
      simp
    rw [hidx, hdrop, trim_append (List.forall_mem_singleton.mpr isWhiteSpace_blank) d.blanks,
      d.trimmed]
  have hsplit : ([','].intercalate d.operands).splitOn ',' = d.operands :=
    List.splitOn_intercalate ',' (fun o ho => (d.texts o ho).1) hne
  rw [InsText.ofText, if_pos hmem]
  dsimp only
  rw [hoperation, hinst, hsplit]
  unfold operand
  match hoperands : d.operands with
  | [] => exact absurd hoperands hne
  | [a] | [a, b] | [a, b, c] => rfl
  | _ :: _ :: _ :: _ :: _ =>
    rw [hoperands, List.length_cons, List.length_cons, List.length_cons, List.length_cons] at hle
    omega

/-! ### The words of an access -/

/-- A text of digits has no equals sign. -/
theorem not_infix_hex (h : Hexadecimal) {p : Line} (hp : '=' ∈ p) : ¬ p <:+: h.text := by
  intro hin
  exact absurd (h.digits '=' (hin.subset hp)) (by decide)

theorem readWord_data (a : Access) (ins : InsText) :
    readWord ins a.dataWord = .ok { ins with data := a.data.value, isMem := true } := by
  have hno : a.dataWord.contains ['A', '='] = false := by
    rw [Line.contains, decide_eq_false_iff_not, Access.dataWord]
    simp [List.infix_cons_iff, List.cons_prefix_cons, not_infix_hex]
  have hyes : a.dataWord.contains ['D', '='] = true := by
    rw [Line.contains, decide_eq_true_iff]
    exact (List.prefix_append ['D', '='] (['0', 'x'] ++ a.data.text)).isInfix
  have hremove : remove ['D', '=', '0', 'x'] a.dataWord = a.data.text :=
    remove_append (by decide) (not_infix_hex _ (by decide))
  rw [readWord, hno, hyes, if_neg (by decide), if_pos rfl, hremove,
    parseHexUInt64_digits a.data.nonempty a.data.digits a.data.small]
  rfl

theorem readWord_address (a : Access) (ins : InsText) :
    readWord ins a.addressWord = .ok { ins with address := a.address.value, isMem := true } := by
  have hyes : a.addressWord.contains ['A', '='] = true := by
    rw [Line.contains, decide_eq_true_iff]
    exact (List.prefix_append ['A', '='] (['0', 'x'] ++ a.address.text)).isInfix
  have hremove : remove ['A', '=', '0', 'x'] a.addressWord = a.address.text :=
    remove_append (by decide) (not_infix_hex _ (by decide))
  rw [readWord, hyes, if_pos rfl, hremove,
    parseHexUInt64_digits a.address.nonempty a.address.digits a.address.small]
  rfl

theorem hex_not_mem (h : Hexadecimal) {c : Char} (hc : hexValue c = none) : c ∉ h.text := fun hmem =>
  absurd (h.digits c hmem) (by simp [hc])

theorem decimal_not_mem (n : Decimal) {c : Char} (hc : c.isDigit = false) : c ∉ n.text := fun hmem =>
  absurd (n.digits c hmem) (by simp [hc])

/-- The words of an access. -/
theorem splitOn_access (a : Access) : a.text.splitOn ' ' = [a.dataWord, a.addressWord] := by
  have hdata : ' ' ∉ a.dataWord := by
    simp [Access.dataWord, hex_not_mem a.data (show hexValue ' ' = none by decide)]
  have haddress : ' ' ∉ a.addressWord := by
    simp [Access.addressWord, hex_not_mem a.address (show hexValue ' ' = none by decide)]
  rw [Access.text, List.splitOn_append_cons_self_of_not_mem hdata,
    List.splitOn_eq_singleton haddress]

/-- The address and the data of a line. -/
theorem readAccess_parts (ins : InsText) (hnone : ins.address = 0 ∧ ins.data = 0 ∧ ins.isMem = false)
    (access : Option Access) :
    readAccess ins (access.elim [] fun a => [a.direction, a.text]) = .ok { ins with
      kind := access.elim .calculation Access.kind
      address := access.elim 0 fun a => a.address.value
      data := access.elim 0 fun a => a.data.value
      isMem := access.isSome } := by
  obtain ⟨haddress, hdata, hmem⟩ := hnone
  cases access with
  | none =>
    cases ins
    simp_all [readAccess, pure, Except.pure]
  | some a =>
    have hkind : (if a.direction = ['R'] then InsKind.read else .write) = a.kind := by
      unfold Access.direction Access.kind
      cases a.write <;> rfl
    simp only [Option.elim_some, readAccess, hkind, splitOn_access, List.foldlM_cons, readWord_data,
      readWord_address, Outcome.ok_bind]
    rfl

/-! ### Lines -/

/-- The separators of parts and of comments are in no part of a line. -/
theorem not_mem_part {x : Char} (hx : x = '|' ∨ x = ';') : ∀ part ∈ d.parts, x ∉ part := by
  -- Numbers, names and blanks have none of the two characters.
  have hdigit : x.isDigit = false := by rcases hx with rfl | rfl <;> decide
  have hhex : hexValue x = none := by rcases hx with rfl | rfl <;> decide
  have hwhite : isWhiteSpace x = false := by rcases hx with rfl | rfl <;> decide
  have hword : x ∉ d.operation := by
    intro h
    rcases hx with rfl | rfl
    · exact (d.word _ h).2.1 rfl
    · exact (d.word _ h).2.2 rfl
  have hoperands : ∀ o ∈ d.operands, x ∉ o := by
    intro o ho
    rcases hx with rfl | rfl
    · exact (d.texts o ho).2.1
    · exact (d.texts o ho).2.2
  have hpad : x ∉ d.pad := fun h => absurd (d.blanks x h) (by simp [hwhite])
  intro part hpart
  rcases List.mem_cons.mp hpart with rfl | hpart
  · exact decimal_not_mem d.cycle hdigit
  rcases List.mem_cons.mp hpart with rfl | hpart
  · by_cases hne : d.operands = []
    · rw [text, insText, if_pos hne]
      exact hword
    · have hjoin : x ∉ [','].intercalate d.operands := by
        rw [mem_iff_splitOn (show x ≠ ',' by rcases hx with rfl | rfl <;> decide),
          List.splitOn_intercalate ',' (fun o ho => (d.texts o ho).1) hne]
        rintro ⟨o, ho, hin⟩
        exact hoperands o ho hin
      rw [text_eq hne]
      rcases hx with rfl | rfl <;> simp [hword, hjoin, hpad]
  · cases haccess : d.access with
    | none =>
      rw [haccess] at hpart
      cases hpart
    | some a =>
      rw [haccess] at hpart
      have hdata := hex_not_mem a.data hhex
      have haddress := hex_not_mem a.address hhex
      simp only [Option.elim_some, List.mem_cons, List.not_mem_nil, or_false] at hpart
      rcases hpart with rfl | rfl
      · unfold Access.direction
        rcases hx with rfl | rfl <;> split <;> decide
      · unfold Access.text Access.dataWord Access.addressWord
        rcases hx with rfl | rfl <;> simp [hdata, haddress]

theorem splitOn_render : d.render.splitOn '|' = d.parts :=
  List.splitOn_intercalate '|' (not_mem_part (.inl rfl)) (List.cons_ne_nil _ _)

theorem semicolon_not_mem_render : ';' ∉ d.render := by
  rw [mem_iff_splitOn (show ';' ≠ '|' by decide), splitOn_render]
  rintro ⟨part, hpart, hin⟩
  exact not_mem_part (.inr rfl) part hpart hin

/-- The label of a start is in no part of a line. -/
theorem start_not_infix : ¬ '_' :: Line.startLabel <:+: d.render := by
  intro h
  obtain ⟨part, hpart, hin⟩ := infix_splitOn (show '|' ∉ '_' :: Line.startLabel by decide) h
  rw [splitOn_render] at hpart
  have hmem : '_' ∈ part := hin.subset (by simp)
  rcases List.mem_cons.mp hpart with rfl | hpart
  · exact decimal_not_mem d.cycle (by decide) hmem
  rcases List.mem_cons.mp hpart with rfl | hpart
  · exact d.inner hin
  · cases haccess : d.access with
    | none =>
      rw [haccess] at hpart
      cases hpart
    | some a =>
      rw [haccess] at hpart
      simp only [Option.elim_some, List.mem_cons, List.not_mem_nil, or_false] at hpart
      rcases hpart with rfl | rfl
      · unfold Access.direction at hmem
        split at hmem <;> exact absurd hmem (by decide)
      · have hdata := hex_not_mem a.data (show hexValue '_' = none by decide)
        have haddress := hex_not_mem a.address (show hexValue '_' = none by decide)
        unfold Access.text Access.dataWord Access.addressWord at hmem
        simp [hdata, haddress] at hmem

theorem comment_render : d.render.comment = false := by
  obtain ⟨c, text, htext⟩ := List.exists_cons_of_ne_nil d.cycle.nonempty
  have hdigit := d.cycle.digits c (by rw [htext]; exact List.mem_cons_self)
  obtain ⟨rest, hrest⟩ : ∃ rest, d.render = c :: rest := by
    unfold render parts
    rw [htext]
    exact ⟨_, rfl⟩
  have hhash : c ≠ '#' := fun h => absurd (h ▸ hdigit) (by decide)
  have hsemicolon : c ≠ ';' := fun h => absurd (h ▸ hdigit) (by decide)
  rw [hrest]
  simp [Line.comment, Line.startsWith, List.isPrefixOf, Ne.symm hhash, Ne.symm hsemicolon]

/-- **A documented line** with one to three operands is parsed to its instruction. -/
theorem parseIns_render (labels : PIMLabels) (pid : Int) (hpos : 1 ≤ d.operands.length)
    (hle : d.operands.length ≤ 3) :
    TraceText.parseIns labels pid d.render = .ok (some (d.meaning labels pid)) := by
  have hcycle : parseUInt64 d.cycle.text = .ok d.cycle.value :=
    parseUInt64_digits d.cycle.nonempty d.cycle.digits d.cycle.small
  rw [TraceText.parseIns, splitOn_render, orNull_eq_some, parts, parseParts, ofText_text hpos hle, hcycle,
    Outcome.ok_bind, Outcome.ok_bind, readAccess_parts _ ⟨rfl, rfl, rfl⟩]
  rfl

/-- The request that comes to a documented line yields its instruction. -/
theorem getReq_render (labels : PIMLabels) (maxBlock pid : Int) (hpos : 1 ≤ d.operands.length)
    (hle : d.operands.length ≤ 3) (rest : List Line) :
    getReq labels maxBlock pid (d.render :: rest) =
      .ok (some (.instruction (d.meaning labels pid)), rest) := by
  have hcut : d.render.cut = d.render := by
    have hnot : d.render.contains [';'] = false := by
      rw [Line.contains, decide_eq_false_iff_not, List.singleton_infix_iff]
      exact semicolon_not_mem_render
    rw [Line.cut, hnot]
    rfl
  have hstart : d.render.contains ('_' :: Line.startLabel) = false := by
    rw [Line.contains, decide_eq_false_iff_not]
    exact start_not_infix
  have htop : topLine labels pid d.render = .ins (TraceText.parseIns labels pid d.render) := by
    rw [topLine, comment_render, hcut]
    dsimp only
    rw [hstart]
    simp
  rw [getReq, htop, parseIns_render labels pid hpos hle]
  rfl

end DocLine

end PIMSim
