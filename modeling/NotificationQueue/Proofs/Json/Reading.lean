import NotificationQueue.Json.Reader
import NotificationQueue.Json.Writer
import NotificationQueue.Proofs.Text.Decimal
import NotificationQueue.Proofs.Uuid

/-!
Reading what has been written. A written value leads the reader to the tree of the value, whatever
containers are open around it and whatever follows, as long as a numeral or a word can end there.
-/
namespace NotificationQueue.Json
set_option autoImplicit false

/-! ## Values that are written exactly -/

mutual

/-- The value holds no doubles, whole numbers of 64 bits alone, and no name twice in an object. -/
def IsExact : Json → Prop
  | .null | .bool _ | .str _ => True
  | .int n => -(Text.maxSigned64 + 1) ≤ n ∧ n ≤ Text.maxWord64
  | .real _ => False
  | .arr items => AreExact items
  | .obj members => (members.map Prod.fst).Nodup ∧ MembersExact members

def AreExact : List Json → Prop
  | [] => True
  | v :: rest => IsExact v ∧ AreExact rest

def MembersExact : List (String × Json) → Prop
  | [] => True
  | (_, v) :: rest => IsExact v ∧ MembersExact rest

end

theorem areExact_iff {items : List Json} : AreExact items ↔ ∀ v ∈ items, v.IsExact := by
  induction items with
  | nil => simp [AreExact]
  | cons v items ih => rw [AreExact, ih, List.forall_mem_cons]

/-! ## Trees of values -/

def Numeral.ofInt (n : Int) : Numeral :=
  ⟨n < 0, Text.digitsOf (Text.decimal n.natAbs), [], none⟩

def pieceOf (c : Char) : Piece :=
  if c.toNat < 0x20 ∧ c ∉ ['\x08', '\x0c', '\n', '\r', '\t'] then .unit c.toNat else .char c

def piecesOf (s : String) : List Piece := s.toList.map pieceOf

mutual

def tree : Json → Tree
  | .null | .real _ => .null
  | .bool b => .bool b
  | .int n => .number (.ofInt n)
  | .str s => .text (piecesOf s)
  | .arr items => .array (trees items)
  | .obj members => .object (memberTrees members)

def trees : List Json → List Tree
  | [] => []
  | v :: rest => tree v :: trees rest

def memberTrees : List (String × Json) → List (List Piece × Tree)
  | [] => []
  | (k, v) :: rest => (piecesOf k, tree v) :: memberTrees rest

end

/-! ## Numerals -/

theorem leadingDigits_eq {cs rest : List Char} (h : ∀ c ∈ cs, c.isDigit = true)
    (hrest : ∀ c ∈ rest.head?, c.isDigit = false) :
    leadingDigits (cs ++ rest) = (Text.digitsOf cs, rest) := by
  obtain ⟨htake, hdrop⟩ := Text.takeWhile_digits h hrest
  rw [leadingDigits, htake, hdrop]
  rfl

theorem digitsOf_decimal_cases (n : Nat) :
    (∃ d, Text.digitsOf (Text.decimal n) = [d]) ∨
      ∃ d e ds, Text.digitsOf (Text.decimal n) = (d + 1) :: e :: ds := by
  cases hcs : Text.decimal n with
  | nil => exact absurd hcs Text.decimal_ne_nil
  | cons c cs =>
    have hc : c.isDigit = true := Text.isDigit_decimal c (by rw [hcs]; exact List.mem_cons_self)
    rw [Text.digitsOf_cons hc]
    cases hds : Text.digitsOf cs with
    | nil => exact .inl ⟨_, rfl⟩
    | cons e ds =>
      have hn : n ≠ 0 := by
        rintro rfl
        rw [Text.decimal_zero] at hcs
        cases hcs
        cases hds
      have hne : c.toNat ≠ '0'.toNat := fun h =>
        Text.head?_decimal hn (by rw [hcs, Char.toNat_inj.1 h]; rfl)
      have hlow : '0'.toNat ≤ c.toNat := (Char.isDigit_iff_toNat.1 hc).1
      refine .inr ⟨c.toNat - '0'.toNat - 1, e, ds, ?_⟩
      rw [Nat.sub_add_cancel (by omega)]

theorem leadingDigits_decimal (n : Nat) :
    leadingDigits (Text.decimal n) = (Text.digitsOf (Text.decimal n), []) := by
  have h : leadingDigits (Text.decimal n ++ []) = _ := leadingDigits_eq Text.isDigit_decimal nofun
  rwa [List.append_nil] at h

theorem ofChars?_decimalInt (n : Int) :
    Numeral.ofChars? (Text.decimalInt n) = some (Numeral.ofInt n) := by
  cases n with
  | ofNat n =>
    have hhyphen : ∀ rest, Text.decimal n ≠ '-' :: rest := by
      intro rest h
      have hdigit := Text.isDigit_decimal '-' (by rw [h]; exact List.mem_cons_self)
      exact absurd hdigit (by decide)
    have hinteger : Numeral.ofInt (.ofNat n) =
        ⟨false, Text.digitsOf (Text.decimal n), [], none⟩ := rfl
    rw [Text.decimalInt, Numeral.ofChars?, leadingDigits_decimal, hinteger]
    · rcases digitsOf_decimal_cases n with ⟨d, hd⟩ | ⟨d, e, ds, hd⟩
      · rw [hd]
        cases d <;> rfl
      · rw [hd]
        rfl
    · exact hhyphen
  | negSucc n =>
    have hinteger : Numeral.ofInt (.negSucc n) =
        ⟨true, Text.digitsOf (Text.decimal (n + 1)), [], none⟩ := by
      simp [Numeral.ofInt, Int.negSucc_lt_zero]
    rw [Text.decimalInt, Numeral.ofChars?, leadingDigits_decimal, hinteger]
    rcases digitsOf_decimal_cases (n + 1) with ⟨d, hd⟩ | ⟨d, e, ds, hd⟩
    · rw [hd]
      cases d <;> rfl
    · rw [hd]
      rfl

theorem value?_ofInt {n : Int} (h : IsExact (.int n)) :
    (Numeral.ofInt n).value? = some (.int n) := by
  obtain ⟨hlow, hhigh⟩ := h
  simp only [Numeral.value?, Numeral.ofInt, Text.digitsValue_decimal, and_self, if_true]
  by_cases hn : n < 0
  · have hmagnitude : n.natAbs ≠ 0 ∧ n.natAbs ≤ Text.maxSigned64 + 1 := by omega
    have hneg : -(n.natAbs : Int) = n := by omega
    simp only [hn, decide_true, not_true, false_and, if_false, true_and, ne_eq, hmagnitude.1,
      hmagnitude.2, not_false_iff, if_true, hneg]
  · have hmagnitude : n.natAbs ≤ Text.maxWord64 := by omega
    have hpos : (n.natAbs : Int) = n := by omega
    simp [hn, hmagnitude, hpos]

/-! ## Strings -/

theorem joinPiece_pieceOf (cs : List Char) (c : Char) :
    joinPiece (cs, none) (pieceOf c) = some (c :: cs, none) := by
  unfold pieceOf
  split
  · next h =>
    have hlow : ¬ (0xD800 ≤ c.toNat ∧ c.toNat < 0xDC00) := by omega
    have hhigh : ¬ (0xDC00 ≤ c.toNat ∧ c.toNat < 0xE000) := by omega
    simp only [joinPiece, if_neg hlow, if_neg hhigh, Char.ofNat_toNat]
  · rfl

theorem foldlM_joinPiece (cs acc : List Char) :
    (cs.map pieceOf).foldlM joinPiece ((acc, none) : PieceState) =
      some (cs.reverse ++ acc, none) := by
  induction cs generalizing acc with
  | nil => rfl
  | cons c cs ih =>
    rw [List.map_cons, List.foldlM_cons, joinPiece_pieceOf]
    refine (ih (c :: acc)).trans ?_
    rw [List.reverse_cons, List.append_assoc, List.singleton_append]

theorem textOfPieces?_piecesOf (s : String) : textOfPieces? (piecesOf s) = some s := by
  rw [textOfPieces?, piecesOf, foldlM_joinPiece]
  simp

/-! ## Going on after a token -/

def Built.resume : Option Built → List (Option Char) → Option (Tree × List (Option Char))
  | none, _ => none
  | some (.complete t), rest => some (t, rest)
  | some (.open expect frames), rest => (⟨.nothing, expect, frames⟩ : Reader).run rest

/-- Where a word or a numeral can end: at the end of all, or before a character that goes on with
neither. -/
def Ends : List (Option Char) → Prop
  | [] => True
  | none :: _ => False
  | some c :: _ => c.isLower = false ∧ inNumeral c = false

def Ready (expect : Expect) (frames : List Frame) : Prop :=
  ∀ token, token ≠ .closeArray → Built.step expect frames token = Built.start frames token

theorem ready_value (frames : List Frame) : Ready .value frames := by
  intro token _
  rfl

theorem ready_firstItem (frames : List Frame) : Ready .firstItem (.array [] :: frames) := by
  intro token h
  cases token with
  | closeArray => exact absurd rfl h
  | _ => rfl

variable {expect : Expect} {frames : List Frame} {rest : List (Option Char)} {token : Token}
  {r : Reader} {lexeme : Lexeme} {t : Tree} {c : Char} {ps : List Piece}

theorem run_take (h : r.feed (some c) = r.take token) :
    r.run (some c :: rest) = Built.resume (Built.step r.expect r.frames token) rest := by
  rw [Reader.run, h, Reader.take]
  cases Built.step r.expect r.frames token with
  | none => rfl
  | some b => cases b <;> rfl

theorem run_punctuation (token : Token) (hspace : isSpace c = false)
    (h : punctuation? c = some token) :
    (⟨.nothing, expect, frames⟩ : Reader).run (some c :: rest) =
      Built.resume (Built.step expect frames token) rest := by
  refine run_take (r := ⟨.nothing, expect, frames⟩) ?_
  simp [Reader.feed, Reader.begin, hspace, h]

theorem run_ended (hlexeme : (∃ w, lexeme = .word w) ∨ ∃ cs, lexeme = .number cs)
    (hscalar : lexeme.scalar? = some t) (hends : Ends rest) :
    (⟨lexeme, expect, frames⟩ : Reader).run rest =
      Built.resume (Built.step expect frames (.scalar t)) rest := by
  cases rest with
  | nil =>
    rw [Reader.run, Reader.finish, hscalar]
    dsimp only [Reader.take]
    cases Built.step expect frames (.scalar t) with
    | none => rfl
    | some b => cases b <;> rfl
  | cons s rest =>
    cases s with
    | none => exact hends.elim
    | some c =>
      obtain ⟨hlower, hnumeral⟩ := hends
      have hfeed : (⟨lexeme, expect, frames⟩ : Reader).feed (some c) =
          (⟨lexeme, expect, frames⟩ : Reader).finish c := by
        rcases hlexeme with ⟨w, rfl⟩ | ⟨cs, rfl⟩
        · simp [Reader.feed, hlower]
        · simp [Reader.feed, hnumeral]
      rw [Reader.run, hfeed, Reader.finish, hscalar]
      dsimp only [Reader.take]
      cases Built.step expect frames (.scalar t) with
      | none => rfl
      | some b => cases b <;> rfl

/-! ## Tokens -/

theorem run_number (cs acc : List Char) (h : ∀ c ∈ cs, inNumeral c = true) :
    (⟨.number acc, expect, frames⟩ : Reader).run (cs.map some ++ rest) =
      (⟨.number (cs.reverse ++ acc), expect, frames⟩ : Reader).run rest := by
  induction cs generalizing acc with
  | nil => rfl
  | cons c cs ih =>
    have hc := h c List.mem_cons_self
    have hrest := ih (c :: acc) fun x hx => h x (List.mem_cons_of_mem c hx)
    rw [List.reverse_cons, List.append_assoc, List.singleton_append, ← hrest]
    simp [Reader.run, Reader.feed, hc]

theorem run_escapeChar (c : Char) :
    (⟨.text ps, expect, frames⟩ : Reader).run ((escapeChar c).map some ++ rest) =
      (⟨.text (pieceOf c :: ps), expect, frames⟩ : Reader).run rest := by
  unfold escapeChar
  split
  · next h => subst h; rfl
  split
  · next h => subst h; rfl
  split
  · next h => subst h; rfl
  split
  · next h => subst h; rfl
  split
  · next h => subst h; rfl
  split
  · next h => subst h; rfl
  split
  · next h => subst h; rfl
  split
  · next _ _ hb hf hn hr ht hcontrol =>
    have hpiece : pieceOf c = .unit c.toNat := by
      simp [pieceOf, hcontrol, hb, hf, hn, hr, ht]
    have hhigh := Text.hexValue?_hexDigit (n := c.toNat / 16) (by omega)
    have hlow := Text.hexValue?_hexDigit (n := c.toNat % 16) (by omega)
    have hvalue : 16 * (c.toNat / 16) + c.toNat % 16 = c.toNat := by omega
    have hzero : Text.hexValue? '0' = some 0 := by decide
    rw [hpiece]
    simp [Reader.run, Reader.feed, hzero, hhigh, hlow, hvalue]
  · next hquote hbackslash _ _ _ _ _ hcontrol =>
    have hpiece : pieceOf c = .char c := if_neg fun h => hcontrol h.1
    rw [hpiece]
    simp [Reader.run, Reader.feed, hquote, hbackslash, hcontrol]

theorem run_string (cs : List Char) :
    (⟨.text ps, expect, frames⟩ : Reader).run ((cs.flatMap escapeChar).map some ++
        some '"' :: rest) =
      Built.resume (Built.step expect frames
        (.scalar (.text (ps.reverse ++ cs.map pieceOf)))) rest := by
  induction cs generalizing ps with
  | nil =>
    rw [List.map_nil, List.append_nil]
    exact run_take (r := ⟨.text ps, expect, frames⟩) rfl
  | cons c cs ih =>
    rw [List.flatMap_cons, List.map_append, List.append_assoc, run_escapeChar, ih]
    simp

theorem run_quote (s : String) :
    (⟨.nothing, expect, frames⟩ : Reader).run ((quote s.toList).map some ++ rest) =
      Built.resume (Built.step expect frames (.scalar (.text (piecesOf s)))) rest := by
  have hstring : (⟨.text [], expect, frames⟩ : Reader).run
      ((s.toList.flatMap escapeChar).map some ++ some '"' :: rest) = _ := run_string s.toList
  rw [quote, List.cons_append, List.map_cons, List.map_append, List.cons_append,
    List.append_assoc]
  exact hstring

theorem begin_numeral (h : c.isDigit = true ∨ c = '-') :
    (⟨.nothing, expect, frames⟩ : Reader).begin c =
      .more ⟨.number [c], expect, frames⟩ := by
  have hothers : ∀ x ∈ [' ', '\n', '\t', '\r', '[', ']', '{', '}', ',', ':', '"'],
      ¬ (x.isDigit = true ∨ x = '-') := by
    simp only [List.forall_mem_cons, List.not_mem_nil, false_implies, implies_true, and_true]
    decide
  have hne : ∀ x ∈ [' ', '\n', '\t', '\r', '[', ']', '{', '}', ',', ':', '"'], c ≠ x := by
    rintro x hx rfl
    exact hothers c hx h
  simp only [List.mem_cons, List.not_mem_nil, or_false, forall_eq_or_imp, forall_eq] at hne
  simp [Reader.begin, isSpace, punctuation?, hne, h]

theorem inNumeral_of_isDigit (h : c.isDigit = true) : inNumeral c = true := by
  simp [inNumeral, h]

theorem run_decimalInt (n : Int) (hends : Ends rest) :
    (⟨.nothing, expect, frames⟩ : Reader).run ((Text.decimalInt n).map some ++ rest) =
      Built.resume (Built.step expect frames (.scalar (.number (.ofInt n)))) rest := by
  have hform : ∃ c cs, Text.decimalInt n = c :: cs ∧ (c.isDigit = true ∨ c = '-') ∧
      ∀ x ∈ cs, x.isDigit = true := by
    cases n with
    | ofNat n =>
      cases hcs : Text.decimal n with
      | nil => exact absurd hcs Text.decimal_ne_nil
      | cons c cs =>
        have hdigits := Text.isDigit_decimal (n := n)
        rw [hcs] at hdigits
        exact ⟨c, cs, hcs, .inl (hdigits c List.mem_cons_self), fun x hx =>
          hdigits x (List.mem_cons_of_mem c hx)⟩
    | negSucc n => exact ⟨'-', _, rfl, .inr rfl, Text.isDigit_decimal⟩
  obtain ⟨c, cs, hn, hc, hcs⟩ := hform
  have hscalar : (Lexeme.number (cs.reverse ++ [c])).scalar? = some (.number (.ofInt n)) := by
    rw [Lexeme.scalar?, List.reverse_append, List.reverse_reverse, List.reverse_singleton,
      List.singleton_append, ← hn, ofChars?_decimalInt]
    rfl
  rw [hn, List.map_cons, List.cons_append, Reader.run, Reader.feed, begin_numeral hc]
  dsimp only
  rw [run_number cs [c] fun x hx => inNumeral_of_isDigit (hcs x hx)]
  exact run_ended (.inr ⟨_, rfl⟩) hscalar hends

/-! ## Values -/

theorem ends_punctuation (h : c = ',' ∨ c = ']' ∨ c = '\x7d') : Ends (some c :: rest) := by
  rcases h with rfl | rfl | rfl <;> exact ⟨by decide, by decide⟩

theorem resume_open : Built.resume (some (.open expect frames)) rest =
    (⟨.nothing, expect, frames⟩ : Reader).run rest := rfl

theorem resume_close_array (items : List Tree) :
    Built.resume (Built.close t (.array items :: frames)) rest =
      (⟨.nothing, .next, .array (t :: items) :: frames⟩ : Reader).run rest := rfl

theorem resume_close_member (members : List (List Piece × Tree)) (name : List Piece) :
    Built.resume (Built.close t (.member members name :: frames)) rest =
      (⟨.nothing, .next, .object ((name, t) :: members) :: frames⟩ : Reader).run rest := rfl

mutual

/-- **A value that has been written is read as its tree**, among whatever containers are open. -/
theorem run_render (v : Json) (hv : v.IsExact) {expect : Expect} {frames : List Frame}
    (hready : Ready expect frames) {rest : List (Option Char)} (hends : Ends rest) :
    (⟨.nothing, expect, frames⟩ : Reader).run ((render v).map some ++ rest) =
      Built.resume (Built.close (tree v) frames) rest := by
  have hscalar : ∀ t, Built.step expect frames (.scalar t) = Built.close t frames :=
    fun t => hready (.scalar t) nofun
  match v, hv with
  | .null, _ =>
    rw [tree, ← hscalar]
    exact run_ended (.inl ⟨['l', 'l', 'u', 'n'], rfl⟩) rfl hends
  | .bool true, _ =>
    rw [tree, ← hscalar]
    exact run_ended (.inl ⟨['e', 'u', 'r', 't'], rfl⟩) rfl hends
  | .bool false, _ =>
    rw [tree, ← hscalar]
    exact run_ended (.inl ⟨['e', 's', 'l', 'a', 'f'], rfl⟩) rfl hends
  | .int n, _ =>
    rw [tree, ← hscalar]
    exact run_decimalInt n hends
  | .str s, _ =>
    rw [tree, ← hscalar]
    exact run_quote s
  | .arr items, hv =>
    have hopen : (⟨.nothing, expect, frames⟩ : Reader).run
        ((render (.arr items)).map some ++ rest) =
        (⟨.nothing, .firstItem, .array [] :: frames⟩ : Reader).run
          ((renderItems items).map some ++ some ']' :: rest) := by
      rw [render, List.cons_append, List.map_cons, List.map_append, List.cons_append,
        List.append_assoc, run_punctuation .openArray rfl rfl,
        hready .openArray nofun]
      rfl
    rw [hopen, tree]
    cases items with
    | nil => exact run_punctuation .closeArray rfl rfl
    | cons w items => exact run_renderItems (w :: items) nofun hv [] (ready_firstItem frames)
  | .obj members, ⟨_, hv⟩ =>
    have hopen : (⟨.nothing, expect, frames⟩ : Reader).run
        ((render (.obj members)).map some ++ rest) =
        (⟨.nothing, .firstName, .object [] :: frames⟩ : Reader).run
          ((renderMembers members).map some ++ some '\x7d' :: rest) := by
      rw [render, List.cons_append, List.map_cons, List.map_append, List.cons_append,
        List.append_assoc, run_punctuation .openObject rfl rfl,
        hready .openObject nofun]
      rfl
    rw [hopen, tree]
    cases members with
    | nil => exact run_punctuation .closeObject rfl rfl
    | cons m members =>
      exact run_renderMembers (m :: members) nofun hv [] fun pieces => rfl

theorem run_renderItems (items : List Json) (hne : items ≠ []) (hitems : AreExact items)
    {expect : Expect} (found : List Tree) {frames : List Frame}
    (hready : Ready expect (.array found :: frames)) {rest : List (Option Char)} :
    (⟨.nothing, expect, .array found :: frames⟩ : Reader).run
        ((renderItems items).map some ++ some ']' :: rest) =
      Built.resume (Built.close (.array (found.reverse ++ trees items)) frames) rest := by
  match items, hitems with
  | [], _ => exact absurd rfl hne
  | [v], ⟨hv, _⟩ =>
    rw [renderItems, run_render v hv hready (ends_punctuation (by decide)), resume_close_array,
      run_punctuation .closeArray rfl rfl]
    simp [Built.step, trees]
  | v :: w :: items, ⟨hv, hitems⟩ =>
    rw [renderItems, List.map_append, List.append_assoc, List.map_cons, List.cons_append,
      run_render v hv hready (ends_punctuation (by decide)), resume_close_array,
      run_punctuation .comma rfl rfl]
    refine Eq.trans (run_renderItems (w :: items) nofun hitems (tree v :: found)
      (ready_value (.array (tree v :: found) :: frames))) ?_
    simp [trees]

theorem run_renderMembers (members : List (String × Json)) (hne : members ≠ [])
    (hmembers : MembersExact members) {expect : Expect}
    (found : List (List Piece × Tree)) {frames : List Frame}
    (hready : ∀ pieces, Built.step expect (.object found :: frames) (.scalar (.text pieces)) =
      some (.open (.colon pieces) (.object found :: frames))) {rest : List (Option Char)} :
    (⟨.nothing, expect, .object found :: frames⟩ : Reader).run
        ((renderMembers members).map some ++ some '\x7d' :: rest) =
      Built.resume (Built.close (.object (found.reverse ++ memberTrees members)) frames) rest := by
  -- A name and its colon lead to the place of the member's value.
  have hname : ∀ (k : String) (symbols : List (Option Char)),
      (⟨.nothing, expect, .object found :: frames⟩ : Reader).run
        ((quote k.toList).map some ++ some ':' :: symbols) =
      (⟨.nothing, .value, .member found (piecesOf k) :: frames⟩ : Reader).run symbols := by
    intro k symbols
    rw [run_quote, hready, resume_open, run_punctuation .colon rfl rfl]
    rfl
  match members, hmembers with
  | [], _ => exact absurd rfl hne
  | [(k, v)], ⟨hv, _⟩ =>
    rw [renderMembers, List.map_append, List.append_assoc, List.map_cons, List.cons_append, hname,
      run_render v hv (ready_value _) (ends_punctuation (by decide)), resume_close_member,
      run_punctuation .closeObject rfl rfl]
    simp [Built.step, memberTrees]
  | (k, v) :: m :: members, ⟨hv, hmembers⟩ =>
    rw [renderMembers, List.append_assoc, List.map_append, List.append_assoc, List.cons_append,
      List.map_cons, List.map_append, List.cons_append, List.append_assoc, List.map_cons,
      List.cons_append, hname, run_render v hv (ready_value _) (ends_punctuation (by decide)),
      resume_close_member, run_punctuation .comma rfl rfl]
    refine Eq.trans (run_renderMembers (m :: members) nofun hmembers
      ((piecesOf k, tree v) :: found) fun _ => rfl) ?_
    simp [memberTrees]

end

/-- **Reading what has been written gives the tree of the value.** -/
theorem read?_write {v : Json} (hv : v.IsExact) : read? (write v) = some (tree v) := by
  have hrun : ({} : Reader).run ((render v).map some ++ []) = some (tree v, []) :=
    run_render v hv (ready_value []) trivial
  rw [List.append_nil] at hrun
  rw [read?, write, String.toList_ofList, readSymbols?, hrun]
  rfl

end NotificationQueue.Json
