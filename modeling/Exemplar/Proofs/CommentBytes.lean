import Exemplar.Proofs.ExampleCode
import Exemplar.Proofs.TopLevel

/-!
# The bytes of a program

Every byte of a program belongs to a leaf, a bracket or a quote mark of its nodes, to a comment, or is blank, and the
comments of the text are exactly what the nodes leave out. Spaces in their place leave the nodes where they are.
-/

namespace Exemplar

open Reader

namespace Text

@[simp] theorem byteLength_spaces (width : Nat) : byteLength (List.replicate width ' ') = width := by
  induction width with
  | zero => rfl
  | succ width ih => rw [List.replicate_succ, byteLength, ih, Nat.add_comm]; rfl

theorem spaces_flatMap (text : List Char) :
    text.flatMap (fun c => List.replicate c.utf8Size ' ') = List.replicate (byteLength text) ' ' := by
  induction text with
  | nil => rfl
  | cons c rest ih => rw [List.flatMap_cons, ih, byteLength, List.replicate_append_replicate]

theorem flatMap_zipIdx (text : List Char) (start : Nat) {f : Char × Nat → List Char} {g : Char → List Char}
    (same : ∀ c i, start ≤ i → i < start + text.length → f (c, i) = g c) :
    (text.zipIdx start).flatMap f = text.flatMap g := by
  induction text generalizing start with
  | nil => rfl
  | cons c rest ih =>
      rw [List.zipIdx_cons, List.flatMap_cons, List.flatMap_cons, same c start (Nat.le_refl _) (by simp)]
      rw [ih (start + 1) fun d i low high => same d i (by omega) (by rw [List.length_cons]; omega)]

end Text

/-! ## Pieces of nodes -/

namespace Node

mutual

/-- The spans of the leaves, the brackets and the quote marks of a node, in the order of the text. -/
def pieces : Node → List Span
  | atom span _ => [span]
  | quote span inner => ⟨span.start, span.start + 1⟩ :: pieces inner
  | group span _ items => ⟨span.start, span.start + 1⟩ :: (allPieces items ++ [⟨span.stop - 1, span.stop⟩])

def allPieces : List Node → List Span
  | [] => []
  | item :: rest => pieces item ++ allPieces rest

end

theorem allPieces_append (left right : List Node) : allPieces (left ++ right) = allPieces left ++ allPieces right := by
  induction left with
  | nil => rfl
  | cons node rest ih => rw [List.cons_append, allPieces, allPieces, ih, List.append_assoc]

theorem allPieces_concat (nodes : List Node) (node : Node) :
    allPieces (nodes ++ [node]) = allPieces nodes ++ node.pieces := by
  rw [allPieces_append, allPieces, allPieces, List.append_nil]

end Node

namespace Lexeme

/-- The spans of the lexemes from `offset` on that are neither comments nor blanks. -/
def codeSpans (offset : Nat) : List Lexeme → List Span
  | [] => []
  | lexeme :: rest =>
      let stop := offset + Text.byteLength lexeme.text
      if lexeme.isTrivia then codeSpans stop rest else ⟨offset, stop⟩ :: codeSpans stop rest

theorem mem_codeSpans {offset : Nat} {lexemes : List Lexeme} {span : Span} :
    span ∈ codeSpans offset lexemes ↔ ∃ before lexeme after, lexemes = before ++ lexeme :: after ∧
      lexeme.isTrivia = false ∧
      span = ⟨offset + Text.byteLength (texts before), offset + Text.byteLength (texts (before ++ [lexeme]))⟩ := by
  constructor
  · intro member
    induction lexemes generalizing offset with
    | nil => cases member
    | cons lexeme rest ih =>
        have later (member : span ∈ codeSpans (offset + Text.byteLength lexeme.text) rest) :
            ∃ before found after, lexeme :: rest = before ++ found :: after ∧ found.isTrivia = false ∧
              span = ⟨offset + Text.byteLength (texts before),
                offset + Text.byteLength (texts (before ++ [found]))⟩ := by
          obtain ⟨before, found, after, rfl, code, rfl⟩ := ih member
          exact ⟨lexeme :: before, found, after, rfl, code, by simp [Nat.add_assoc]⟩
        rw [codeSpans] at member
        split at member
        · exact later member
        · next code =>
            rcases List.mem_cons.mp member with rfl | member
            · exact ⟨[], lexeme, rest, rfl, Bool.eq_false_iff.mpr code, by simp [Text.byteLength]⟩
            · exact later member
  · rintro ⟨before, lexeme, after, rfl, code, rfl⟩
    induction before generalizing offset with
    | nil => simp [codeSpans, code, Text.byteLength]
    | cons first rest ih =>
        have tail := @ih (offset + Text.byteLength first.text)
        simp only [Nat.add_assoc] at tail
        rw [List.cons_append, codeSpans]
        split
        · simpa [Nat.add_assoc] using tail
        · exact List.mem_cons_of_mem _ (by simpa [Nat.add_assoc] using tail)

end Lexeme

namespace Reader

theorem byteLength_space {c : Char} (space : isSpace c = true) : Text.byteLength [c] = 1 := by
  simp only [isSpace, Bool.or_eq_true, beq_iff_eq] at space
  rcases space with ((rfl | rfl) | rfl) | rfl <;> rfl

/-- The pieces of an open group or quotation so far. -/
def Pending.pieces : Pending → List Span
  | ⟨.quote, start, _⟩ => [⟨start, start + 1⟩]
  | ⟨.bracket _, start, items⟩ => ⟨start, start + 1⟩ :: Node.allPieces items.reverse

namespace Reading

/-- The pieces of all that has been read. -/
def pieces (reading : Reading) : List Span :=
  Node.allPieces reading.done.reverse ++ reading.stack.reverse.flatMap Pending.pieces

theorem push_pieces (reading : Reading) (node : Node) (next : Nat) :
    (reading.push node next).pieces = reading.pieces ++ node.pieces := by
  obtain ⟨offset, stack, done⟩ := reading
  unfold push
  dsimp only
  -- A quotation that the node finishes has its mark before the pieces of the node already.
  induction stack generalizing node with
  | nil => simp [place, pieces, Node.allPieces_concat]
  | cons pending rest ih =>
      obtain ⟨opener, start, items⟩ := pending
      cases opener with
      | bracket bracket => simp [place, pieces, Pending.pieces, Node.allPieces_concat]
      | quote =>
          have finished := ih (.quote ⟨start, node.span.stop⟩ node)
          rw [place, finished]
          simp [pieces, Pending.pieces, Node.pieces]

theorem step_pieces {reading next : Reading} {lexeme : Lexeme} (read : reading.step lexeme = .ok next) :
    next.pieces = reading.pieces ++ if lexeme.isTrivia then [] else [⟨reading.offset, next.offset⟩] := by
  rcases step_cases read with ⟨trivia, offset, rfl, _⟩ |
    ⟨code, ⟨opener, rfl⟩ | ⟨a, offset, rfl, _⟩ | ⟨bracket, start, items, rest, isOpen, rfl⟩⟩
  · simp [trivia, pieces, skip]
  · cases opener <;> simp [code, pieces, descend, Pending.pieces, Node.allPieces]
  · rw [push_pieces, code]
    rfl
  · rw [push_pieces, code]
    simp [pieces, isOpen, Pending.pieces, Node.pieces, push]

theorem steps_pieces {reading next : Reading} {lexemes : List Lexeme} (read : reading.steps lexemes = .ok next) :
    next.pieces = reading.pieces ++ Lexeme.codeSpans reading.offset lexemes := by
  induction lexemes generalizing reading with
  | nil => cases read; simp [Lexeme.codeSpans]
  | cons lexeme rest ih =>
      obtain ⟨middle, first, later⟩ := steps_cons_ok read
      rw [ih later, step_pieces first, step_offset first, Lexeme.codeSpans]
      split <;> simp

end Reading

end Reader

/-- The pieces of a program are its lexemes without comments and blanks. -/
theorem Node.allPieces_of_read {text : List Char} {nodes : List Node}
    (read : Node.read (String.ofList text) = .ok nodes) :
    Node.allPieces nodes = Lexeme.codeSpans 0 (Lexeme.all text) := by
  obtain ⟨final, stepped, finished⟩ := Node.steps_of_read read
  have pieces := Reading.steps_pieces stepped
  obtain ⟨empty, rfl⟩ := Reading.finish_ok finished
  simpa [Reading.pieces, empty, Reading.initial, Node.allPieces] using pieces

/-! ## Lexemes and bytes -/

namespace Lexeme

/-- Of two different lexemes of a row one ends before the other begins. -/
theorem texts_apart {before after before' after' : List Lexeme} {lexeme other : Lexeme}
    (same : before ++ lexeme :: after = before' ++ other :: after') (different : lexeme ≠ other) :
    Text.byteLength (texts (before ++ [lexeme])) ≤ Text.byteLength (texts before') ∨
      Text.byteLength (texts (before' ++ [other])) ≤ Text.byteLength (texts before) := by
  rcases cut_cases same with here | ⟨middle, rfl⟩ | ⟨middle, rfl⟩
  · exact absurd here different
  · left
    simp only [texts_append, texts_cons, texts_nil, Text.byteLength_append, List.append_nil]
    omega
  · right
    simp only [texts_append, texts_cons, texts_nil, Text.byteLength_append, List.append_nil]
    omega

theorem isTrivia_of_isComment {lexeme : Lexeme} (comment : lexeme.isComment = true) : lexeme.isTrivia = true := by
  cases lexeme <;> simp_all [isComment, isTrivia]

end Lexeme

namespace Comment

variable {text : List Char}

/-- The bytes of a comment with its marks. -/
def bytes (text : List Char) (c : Comment) : Span :=
  ⟨Position.byteOffset text c.span.start, Position.byteOffset text c.span.stop⟩

theorem byteOffset_lexemes (fits : Position.Fits text) {before after : List Lexeme}
    (whole : Lexeme.all text = before ++ after) :
    Position.byteOffset text (Position.start.advance (Lexeme.texts before)) =
      Text.byteLength (Lexeme.texts before) := by
  have same : text = Lexeme.texts before ++ Lexeme.texts after := by
    rw [← Lexeme.texts_append, ← whole, Lexeme.texts_all]
  rw [same] at fits ⊢
  exact Position.byteOffset_advance fits

theorem exists_bytes_iff (fits : Position.Fits text) {span : Span} :
    (∃ c ∈ scan text, c.bytes text = span) ↔
      ∃ before lexeme after, Lexeme.all text = before ++ lexeme :: after ∧ lexeme.isComment = true ∧
        span = ⟨Text.byteLength (Lexeme.texts before), Text.byteLength (Lexeme.texts (before ++ [lexeme]))⟩ := by
  have ends {before after : List Lexeme} {lexeme : Lexeme} (whole : Lexeme.all text = before ++ lexeme :: after) :
      Position.byteOffset text (Position.start.advance (Lexeme.texts (before ++ [lexeme]))) =
        Text.byteLength (Lexeme.texts (before ++ [lexeme])) := by
    have behind : Lexeme.all text = (before ++ [lexeme]) ++ after := by simpa using whole
    exact byteOffset_lexemes fits behind
  constructor
  · rintro ⟨c, member, rfl⟩
    obtain ⟨before, lexeme, after, whole, isComment, span⟩ := exists_span_iff.mp ⟨c, member, rfl⟩
    exact ⟨before, lexeme, after, whole, isComment, by rw [bytes, span, byteOffset_lexemes fits whole, ends whole]⟩
  · rintro ⟨before, lexeme, after, whole, isComment, rfl⟩
    obtain ⟨c, member, span⟩ := exists_span_iff.mpr ⟨before, lexeme, after, whole, isComment, rfl⟩
    exact ⟨c, member, by rw [bytes, span, byteOffset_lexemes fits whole, ends whole]⟩

end Comment

/-! ## Spaces in the place of comments -/

namespace Lexeme

/-- What is left of a lexeme when every byte of a comment is a space. -/
def blank (lexeme : Lexeme) : List Lexeme :=
  if lexeme.isComment then List.replicate (Text.byteLength lexeme.text) (mark ' ') else [lexeme]

theorem texts_spaces (width : Nat) : texts (List.replicate width (mark ' ')) = List.replicate width ' ' := by
  induction width with
  | zero => rfl
  | succ width ih => rw [List.replicate_succ, texts_cons, ih, List.replicate_succ]; rfl

theorem leads_spaces (width : Nat) (after : List Char) : Leads after (List.replicate width (mark ' ')) := by
  induction width with
  | zero => trivial
  | succ width ih => exact ⟨⟨' ', _, rfl, rfl⟩, ih⟩

/-- Behind a lexeme comes what came before, or a space. -/
theorem head_blank {after : List Char} {lexemes : List Lexeme} (leads : Leads after lexemes) {c : Char}
    (begins : c ∈ (texts (lexemes.flatMap blank)).head?) : c ∈ (texts lexemes).head? ∨ c = ' ' := by
  cases lexemes with
  | nil => cases begins
  | cons lexeme rest =>
      have nonempty := leads.1.text_ne_nil
      rw [List.flatMap_cons, texts_append] at begins
      cases comment : lexeme.isComment with
      | true =>
          obtain ⟨width, isSucc⟩ := Nat.exists_eq_succ_of_ne_zero (Nat.ne_of_gt (byteLength_pos nonempty))
          rw [blank, comment, if_pos rfl, texts_spaces, isSucc] at begins
          exact .inr (Option.some.inj begins).symm
      | false =>
          obtain ⟨d, more, same⟩ := List.exists_cons_of_ne_nil nonempty
          simp only [blank, comment, Bool.false_eq_true, if_false, texts_cons, texts_nil, same] at begins ⊢
          exact .inl begins

theorem endsBefore_blank {after : List Char} {lexeme : Lexeme} {rest : List Lexeme} (leads : Leads after rest)
    (ends : lexeme.EndsBefore (texts rest)) (code : lexeme.isComment = false) :
    lexeme.EndsBefore (texts (rest.flatMap blank)) := by
  cases lexeme with
  | line body => cases code
  | word characters =>
      intro c begins
      rcases head_blank leads begins with old | rfl
      · exact ends c old
      · decide
  | _ => trivial

theorem leads_blank {lexemes : List Lexeme} (leads : Leads [] lexemes)
    (closed : ∀ lexeme ∈ lexemes, lexeme.isStray = false) : Leads [] (lexemes.flatMap blank) := by
  induction lexemes with
  | nil => trivial
  | cons lexeme rest ih =>
      obtain ⟨opens, leadsRest⟩ := leads
      rw [List.append_nil] at opens
      have later := ih leadsRest fun other member => closed other (List.mem_cons_of_mem _ member)
      refine leads_append.mpr ⟨?_, later⟩
      rw [List.append_nil]
      cases comment : lexeme.isComment with
      | true =>
          rw [blank, comment, if_pos rfl]
          exact leads_spaces _ _
      | false =>
          rw [blank, comment, if_neg Bool.false_ne_true]
          refine ⟨?_, trivial⟩
          exact opens.change (closed lexeme List.mem_cons_self) (endsBefore_blank leadsRest opens.endsBefore comment)

theorem all_blank {text : List Char} (closed : ∀ lexeme ∈ all text, lexeme.isStray = false) :
    all (texts ((all text).flatMap blank)) = (all text).flatMap blank := by
  simpa using all_of_leads (leads_blank (leads_all text) closed)

end Lexeme

namespace Reader.Reading

theorem steps_blank (reading : Reading) (lexemes : List Lexeme) :
    reading.steps (lexemes.flatMap Lexeme.blank) = reading.steps lexemes := by
  induction lexemes generalizing reading with
  | nil => rfl
  | cons lexeme rest ih =>
      have same : reading.steps lexeme.blank = reading.steps [lexeme] := by
        cases comment : lexeme.isComment with
        | false => rw [Lexeme.blank, comment, if_neg Bool.false_ne_true]
        | true =>
            have spaces : ∀ space ∈ lexeme.blank, space.isTrivia = true := by
              intro space member
              rw [Lexeme.blank, comment, if_pos rfl] at member
              rw [List.eq_of_mem_replicate member]
              rfl
            have alone : ∀ other ∈ [lexeme], other.isTrivia = true := by
              simpa using Lexeme.isTrivia_of_isComment comment
            rw [steps_trivia reading spaces, steps_trivia reading alone, Lexeme.blank, comment, if_pos rfl,
              Lexeme.texts_spaces, Text.byteLength_spaces, Lexeme.texts_cons, Lexeme.texts_nil, List.append_nil]
      calc reading.steps (lexeme.blank ++ rest.flatMap Lexeme.blank)
        _ = (reading.steps [lexeme]).bind (·.steps (rest.flatMap Lexeme.blank)) := by rw [steps_append, same]
        _ = (reading.steps [lexeme]).bind (·.steps rest) := by simp only [ih]
        _ = reading.steps ([lexeme] ++ rest) := (steps_append reading [lexeme] rest).symm

end Reader.Reading

namespace Comment

variable {text : List Char}

/-- A text with a space for every byte of its comments. -/
def blanked (text : List Char) : List Char :=
  text.zipIdx.flatMap fun (c, i) => if Inside text i then List.replicate c.utf8Size ' ' else [c]

theorem blanked_lexemes (fits : Position.Fits text) {before after : List Lexeme}
    (whole : Lexeme.all text = before ++ after) :
    (((Lexeme.texts after).zipIdx (Lexeme.texts before).length).flatMap fun (c, i) =>
      if Inside text i then List.replicate c.utf8Size ' ' else [c]) = Lexeme.texts (after.flatMap Lexeme.blank) := by
  induction after generalizing before with
  | nil => rfl
  | cons lexeme rest ih =>
      have behind : Lexeme.all text = (before ++ [lexeme]) ++ rest := by simpa using whole
      have inside (i : Nat) (low : (Lexeme.texts before).length ≤ i)
          (high : i < (Lexeme.texts before).length + lexeme.text.length) :
          Inside text i ↔ lexeme.isComment = true := by
        have takes : Lexeme.Takes (Lexeme.all text) i lexeme := ⟨before, rest, whole, low, high⟩
        rw [inside_iff fits]
        constructor
        · rintro ⟨other, takes', comment⟩
          rwa [takes.unique takes']
        · exact fun comment => ⟨lexeme, takes, comment⟩
      have later := ih behind
      rw [Lexeme.texts_append, Lexeme.texts_cons, Lexeme.texts_nil, List.append_nil, List.length_append] at later
      rw [Lexeme.texts_cons, List.zipIdx_append, List.flatMap_append, later, List.flatMap_cons, Lexeme.texts_append]
      congr 1
      cases comment : lexeme.isComment with
      | true =>
          rw [Lexeme.blank, comment, if_pos rfl, Lexeme.texts_spaces, ← Text.spaces_flatMap]
          refine Text.flatMap_zipIdx _ _ fun c i low high => if_pos ((inside i low high).mpr comment)
      | false =>
          rw [Lexeme.blank, comment, if_neg Bool.false_ne_true, Lexeme.texts_cons, Lexeme.texts_nil, List.append_nil]
          conv => rhs; rw [← List.flatMap_singleton' lexeme.text]
          refine Text.flatMap_zipIdx _ _ fun c i low high => if_neg ?_
          rw [inside i low high, comment]
          exact Bool.false_ne_true

/-- A text without stray marks reads the same with spaces in the place of its comments. -/
theorem read_blanked (fits : Position.Fits text) (closed : ∀ lexeme ∈ Lexeme.all text, lexeme.isStray = false) :
    Node.read (String.ofList (blanked text)) = Node.read (String.ofList text) := by
  have spaced := blanked_lexemes fits (List.nil_append (Lexeme.all text)).symm
  rw [Lexeme.texts_all] at spaced
  have lexemes : Lexeme.all (blanked text) = (Lexeme.all text).flatMap Lexeme.blank := by
    rw [← Lexeme.all_blank closed, ← spaced]
    rfl
  unfold Node.read Reader.nodes
  rw [String.toList_ofList, String.toList_ofList, lexemes, Reading.steps_blank]

theorem bytes_apart (fits : Position.Fits text) {span : Span} (code : span ∈ Lexeme.codeSpans 0 (Lexeme.all text))
    {c : Comment} (comment : c ∈ scan text) :
    span.stop ≤ (c.bytes text).start ∨ (c.bytes text).stop ≤ span.start := by
  obtain ⟨before, lexeme, after, whole, isCode, rfl⟩ := Lexeme.mem_codeSpans.mp code
  obtain ⟨before', other, after', whole', isComment, bytes⟩ := (exists_bytes_iff fits).mp ⟨c, comment, rfl⟩
  have different : lexeme ≠ other := by
    rintro rfl
    rw [Lexeme.isTrivia_of_isComment isComment] at isCode
    cases isCode
  rw [bytes]
  simpa using Lexeme.texts_apart (whole.symm.trans whole') different

/-- A byte that is no code is in a comment or a blank. -/
theorem byte_covered (fits : Position.Fits text) {i : Nat} (bound : i < Text.byteLength text) :
    (∃ span ∈ Lexeme.codeSpans 0 (Lexeme.all text), span.start ≤ i ∧ i < span.stop) ∨
      (∃ c ∈ scan text, (c.bytes text).start ≤ i ∧ i < (c.bytes text).stop) ∨
      ∃ before c after, text = before ++ c :: after ∧ Text.byteLength before = i ∧ isSpace c = true := by
  rw [← Lexeme.texts_all text] at bound
  obtain ⟨before, lexeme, after, whole, low, high⟩ := Lexeme.exists_cut Text.byteLength_append bound
  have inComment (comment : lexeme.isComment = true) :
      ∃ c ∈ scan text, (c.bytes text).start ≤ i ∧ i < (c.bytes text).stop := by
    obtain ⟨c, member, bytes⟩ := (exists_bytes_iff fits).mpr ⟨before, lexeme, after, whole, comment, rfl⟩
    exact ⟨c, member, by rw [bytes]; exact ⟨low, high⟩⟩
  cases trivia : lexeme.isTrivia with
  | false =>
      refine .inl ⟨_, Lexeme.mem_codeSpans.mpr ⟨before, lexeme, after, whole, trivia, rfl⟩, ?_⟩
      simp only [Nat.zero_add]
      exact ⟨low, high⟩
  | true =>
      cases lexeme with
      | block body => exact .inr (.inl (inComment rfl))
      | line body => exact .inr (.inl (inComment rfl))
      | string body => cases trivia
      | word characters => cases trivia
      | mark c =>
          refine .inr (.inr ⟨Lexeme.texts before, c, Lexeme.texts after, ?_, ?_, trivia⟩)
          · rw [← Lexeme.texts_all text, whole, Lexeme.texts_append, Lexeme.texts_cons]
            rfl
          · have one : Text.byteLength [c] = 1 := byteLength_space trivia
            simp only [Lexeme.texts_append, Lexeme.texts_cons, Lexeme.texts_nil, List.append_nil, Lexeme.text,
              Text.byteLength_append, one] at high
            omega

/-- The comments of a program are what its nodes leave out. The scan cuts the text up to its end and finds the comment
lexemes, which the reader steps over. With a space for every byte of them the program has the same nodes at the same
places; they are apart from all leaves, brackets and quote marks; and what is outside of both is blank. -/
theorem comments_complement_nodes (text : List Char) (nodes : List Node) (fits : Position.Fits text)
    (read : Node.read (String.ofList text) = .ok nodes) :
    Stretch.texts (Stretch.all text) = text ∧ scan text = ofLexemes .start (Lexeme.all text) ∧
      Node.read (String.ofList (blanked text)) = .ok nodes ∧
      (∀ piece ∈ Node.allPieces nodes, ∀ c ∈ scan text,
        piece.stop ≤ (c.bytes text).start ∨ (c.bytes text).stop ≤ piece.start) ∧
      ∀ i < Text.byteLength text,
        (∃ piece ∈ Node.allPieces nodes, piece.start ≤ i ∧ i < piece.stop) ∨
          (∃ c ∈ scan text, (c.bytes text).start ≤ i ∧ i < (c.bytes text).stop) ∨
          ∃ before c after, text = before ++ c :: after ∧ Text.byteLength before = i ∧ isSpace c = true := by
  have forms : Form.read (String.ofList text) = .ok (Node.forms nodes) := by rw [Form.read, read]; rfl
  refine ⟨Stretch.texts_all text, scan_eq text, (read_blanked fits (Form.closed_of_read forms)).trans read, ?_, ?_⟩
  · rw [Node.allPieces_of_read read]
    exact fun piece code c comment => bytes_apart fits code comment
  · rw [Node.allPieces_of_read read]
    exact fun i bound => byte_covered fits bound

/-- Comments right behind a quote and a symbol, one with a wide character, and marks of comments in a string. -/
theorem comments_complement_nodes_glued :
    Node.read (String.ofList "'#|é|#x;\"\n[\"; #|\"]".toList) =
        .ok [.quote ⟨0, 8⟩ (.atom ⟨7, 8⟩ (.symbol "x")),
          .group ⟨11, 19⟩ .square [.atom ⟨12, 18⟩ (.string "; #|")]] ∧
      blanked "'#|é|#x;\"\n[\"; #|\"]".toList = "'      x  \n[\"; #|\"]".toList ∧
      Node.read (String.ofList (blanked "'#|é|#x;\"\n[\"; #|\"]".toList)) =
        .ok [.quote ⟨0, 8⟩ (.atom ⟨7, 8⟩ (.symbol "x")),
          .group ⟨11, 19⟩ .square [.atom ⟨12, 18⟩ (.string "; #|")]] ∧
      (∀ c ∈ scan "'#|é|#x;\"\n[\"; #|\"]".toList,
        18 ≤ (c.bytes "'#|é|#x;\"\n[\"; #|\"]".toList).start ∨
          (c.bytes "'#|é|#x;\"\n[\"; #|\"]".toList).stop ≤ 12) := by
  have whole := comments_complement_nodes "'#|é|#x;\"\n[\"; #|\"]".toList
    [.quote ⟨0, 8⟩ (.atom ⟨7, 8⟩ (.symbol "x")),
      .group ⟨11, 19⟩ .square [.atom ⟨12, 18⟩ (.string "; #|")]] (by decide) rfl
  exact ⟨rfl, by decide, whole.2.2.1, whole.2.2.2.1 ⟨12, 18⟩ (by decide)⟩

end Comment

end Exemplar
