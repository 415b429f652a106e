-- A value of texts, lists and objects comes back from its bytes. The lexer
-- cuts the bytes into the tokens of the value, and the builder makes the value
-- of the tokens, whatever lists and objects stand open around it.
import BinaryAtlas.Json.Tree
import BinaryAtlas.Proofs.JsonTexts

namespace BinaryAtlas.Json

/-- A value whose leaves are texts. -/
inductive Textual : Json → Prop
  | text (cs : List Char) : Textual (.text (spellText cs))
  | list {items : List Json} (h : ∀ item ∈ items, Textual item) : Textual (.list items)
  | object {entries : List (List UInt8 × Json)}
      (hname : ∀ entry ∈ entries, ∃ cs, entry.1 = spellText cs)
      (h : ∀ entry ∈ entries, Textual entry.2) : Textual (.object entries)

/-! ## Bytes and tokens -/

/-- A token of such a value. -/
def Token.IsPlain : Token → Prop
  | .mark b => isMark b
  | .word _ => False
  | .text spelling => ∃ cs, spelling = spellText cs

theorem start_mark {b : UInt8} (h : isMark b) (before : List Token) :
    Lexer.start { tokens := before } b = { tokens := .mark b :: before } := by
  have hgap : isGap b = false := by
    simp only [isMark, Bool.or_eq_true, beq_iff_eq] at h
    rcases h with ((((rfl | rfl) | rfl) | rfl) | rfl) | rfl <;> rfl
  simp [Lexer.start, hgap, h]

/-- The lexer takes the spelling of a token as this token. -/
theorem foldlM_step_spelling {token : Token} (h : token.IsPlain) (before : List Token) :
    token.spelling.foldlM Lexer.step { tokens := before } = some { tokens := token :: before } := by
  cases token with
  | mark b => simp [Token.spelling, Lexer.step, start_mark h]
  | word spelling => exact h.elim
  | text spelling =>
    obtain ⟨cs, rfl⟩ := h
    have hopen : Lexer.step { tokens := before } quote =
        some { place := .inText [], tokens := before } := rfl
    have hclose : Lexer.step { place := .inText (spellText cs).reverse, tokens := before } quote =
        some { tokens := .text (spellText cs).reverse.reverse :: before } := rfl
    rw [Token.spelling, List.cons_append, foldlM_cons_of_some hopen,
      foldlM_append_of_some (Lexer.foldlM_step_spellText cs [] before), List.append_nil,
      foldlM_cons_of_some hclose, List.reverse_reverse]
    rfl

theorem foldlM_step_spellings {tokens : List Token} (h : ∀ token ∈ tokens, token.IsPlain)
    (before : List Token) :
    (tokens.flatMap Token.spelling).foldlM Lexer.step { tokens := before } =
      some { tokens := tokens.reverse ++ before } := by
  induction tokens generalizing before with
  | nil => rfl
  | cons token tokens ih =>
    rw [List.flatMap_cons,
      foldlM_append_of_some (foldlM_step_spelling (h token List.mem_cons_self) before),
      ih fun token' htoken => h token' (List.mem_cons_of_mem token htoken), List.reverse_cons,
      List.append_assoc, List.singleton_append]

theorem tokens?_spellings {tokens : List Token} (h : ∀ token ∈ tokens, token.IsPlain) :
    tokens? (tokens.flatMap Token.spelling) = some tokens := by
  unfold tokens?
  rw [foldlM_step_spellings h]
  simp [Lexer.finish]

/-! ## The tokens of a value -/

theorem itemTokens_eq (items : List Json) :
    itemTokens items = items.flatMap fun item => .mark comma :: tokens item := by
  induction items with
  | nil => rfl
  | cons item items ih => rw [itemTokens, ih, List.flatMap_cons]

theorem entryTokens_eq (entries : List (List UInt8 × Json)) :
    entryTokens entries = entries.flatMap fun entry =>
      .mark comma :: .text entry.1 :: .mark colon :: tokens entry.2 := by
  induction entries with
  | nil => rfl
  | cons entry entries ih => rw [entryTokens, ih, List.flatMap_cons]

theorem isPlain_tokens {value : Json} (h : Textual value) :
    ∀ token ∈ tokens value, token.IsPlain := by
  induction h with
  | text cs =>
    intro token htoken
    obtain rfl := List.mem_singleton.mp htoken
    exact ⟨cs, rfl⟩
  | @list items _ ih =>
    intro token htoken
    cases items with
    | nil =>
      simp only [tokens, List.mem_cons, List.not_mem_nil, or_false] at htoken
      rcases htoken with rfl | rfl <;> rfl
    | cons item items =>
      simp only [tokens, itemTokens_eq, List.cons_append, List.mem_cons, List.mem_append,
        List.mem_flatMap, List.not_mem_nil, or_false] at htoken
      rcases htoken with rfl | (htoken | ⟨item', hitem', rfl | htoken⟩) | rfl
      · rfl
      · exact ih item List.mem_cons_self token htoken
      · rfl
      · exact ih item' (List.mem_cons_of_mem item hitem') token htoken
      · rfl
  | @object entries hname _ ih =>
    intro token htoken
    cases entries with
    | nil =>
      simp only [tokens, List.mem_cons, List.not_mem_nil, or_false] at htoken
      rcases htoken with rfl | rfl <;> rfl
    | cons entry entries =>
      simp only [tokens, entryTokens_eq, List.cons_append, List.mem_cons, List.mem_append,
        List.mem_flatMap, List.not_mem_nil, or_false] at htoken
      rcases htoken with
        rfl | rfl | rfl | (htoken | ⟨entry', hentry', rfl | rfl | rfl | htoken⟩) | rfl
      · rfl
      · exact hname entry List.mem_cons_self
      · rfl
      · exact ih entry List.mem_cons_self token htoken
      · rfl
      · exact hname entry' (List.mem_cons_of_mem entry hentry')
      · rfl
      · exact ih entry' (List.mem_cons_of_mem entry hentry') token htoken
      · rfl

/-! ## The builder -/

namespace Builder

/-- The builder makes the value of its tokens and stands behind it. -/
def Builds (value : Json) : Prop :=
  ∀ frames : List Frame, (tokens value).foldlM step { frames } =
    some { frames, expect := .afterValue value }

/-- No value starts with the end of a list. -/
theorem exists_first (value : Json) :
    ∃ token rest, tokens value = token :: rest ∧ token ≠ .mark closeList := by
  have hlist : Token.mark openList ≠ .mark closeList := by decide
  have hobject : Token.mark openObject ≠ .mark closeList := by decide
  unfold tokens
  split <;> refine ⟨_, _, rfl, ?_⟩
  · nofun
  · nofun
  · nofun
  · nofun
  · nofun
  · exact hlist
  · exact hlist
  · exact hobject
  · exact hobject

theorem foldlM_step_firstItem {value : Json} (h : Builds value) (frames : List Frame) :
    (tokens value).foldlM step { frames, expect := .itemOrClose } =
      some { frames, expect := .afterValue value } := by
  have hbuilds := h frames
  obtain ⟨token, rest, htokens, htoken⟩ := exists_first value
  have hfirst : step { frames, expect := .itemOrClose } token = step { frames } token :=
    if_neg htoken
  rw [htokens, List.foldlM_cons] at hbuilds ⊢
  rw [hfirst, hbuilds]

theorem foldlM_step_items {items : List Json} (h : ∀ item ∈ items, Builds item)
    (before : List Json) (last : Json) (frames : List Frame) :
    (itemTokens items ++ [Token.mark closeList]).foldlM step
        { frames := .list before :: frames, expect := .afterValue last } =
      some { frames, expect := .afterValue (.list (before.reverse ++ last :: items)) } := by
  induction items generalizing before last with
  | nil =>
    have hclose : step { frames := .list before :: frames, expect := .afterValue last }
        (.mark closeList) =
          some { frames, expect := .afterValue (.list (last :: before).reverse) } := rfl
    rw [itemTokens, List.nil_append, foldlM_cons_of_some hclose, List.reverse_cons]
    rfl
  | cons item items ih =>
    have hcomma : step { frames := .list before :: frames, expect := .afterValue last }
        (.mark comma) = some { frames := .list (last :: before) :: frames } := rfl
    rw [itemTokens, List.cons_append, List.cons_append, foldlM_cons_of_some hcomma,
      List.append_assoc, foldlM_append_of_some (h item List.mem_cons_self _),
      ih fun item' hitem => h item' (List.mem_cons_of_mem item hitem), List.reverse_cons,
      List.append_assoc, List.singleton_append]

theorem builds_list {items : List Json} (h : ∀ item ∈ items, Builds item) :
    Builds (.list items) := by
  intro frames
  cases items with
  | nil => rfl
  | cons item items =>
    have hopen : step { frames } (.mark openList) =
        some { frames := .list [] :: frames, expect := .itemOrClose } := rfl
    rw [tokens, List.cons_append, List.cons_append, foldlM_cons_of_some hopen, List.append_assoc,
      foldlM_append_of_some (foldlM_step_firstItem (h item List.mem_cons_self) _),
      foldlM_step_items fun item' hitem => h item' (List.mem_cons_of_mem item hitem)]
    rfl

/-- The name and the value of an entry, read where an entry must stand. -/
theorem foldlM_step_entry {value : Json} (h : Builds value) (name : List UInt8)
    (before : List (List UInt8 × Json)) (frames : List Frame) :
    (.text name :: .mark colon :: tokens value).foldlM step { frames, expect := .entry before } =
      some { frames := .object before name :: frames, expect := .afterValue value } := by
  have hname : step { frames, expect := .entry before } (.text name) =
      some { frames, expect := .colon before name } := rfl
  have hcolon : step { frames, expect := .colon before name } (.mark colon) =
      some { frames := .object before name :: frames } := rfl
  rw [foldlM_cons_of_some hname, foldlM_cons_of_some hcolon, h]

theorem foldlM_step_entries {entries : List (List UInt8 × Json)}
    (h : ∀ entry ∈ entries, Builds entry.2) (before : List (List UInt8 × Json))
    (name : List UInt8) (last : Json) (frames : List Frame) :
    (entryTokens entries ++ [Token.mark closeObject]).foldlM step
        { frames := .object before name :: frames, expect := .afterValue last } =
      some { frames,
             expect := .afterValue (.object (before.reverse ++ (name, last) :: entries)) } := by
  induction entries generalizing before name last with
  | nil =>
    have hclose : step { frames := .object before name :: frames, expect := .afterValue last }
        (.mark closeObject) =
          some { frames, expect := .afterValue (.object ((name, last) :: before).reverse) } := rfl
    rw [entryTokens, List.nil_append, foldlM_cons_of_some hclose, List.reverse_cons]
    rfl
  | cons entry entries ih =>
    have hcomma : step { frames := .object before name :: frames, expect := .afterValue last }
        (.mark comma) = some { frames, expect := .entry ((name, last) :: before) } := rfl
    have hentry := foldlM_step_entry (h entry List.mem_cons_self) entry.1 ((name, last) :: before)
      frames
    rw [entryTokens, List.append_assoc]
    simp only [List.cons_append] at hentry ⊢
    rw [foldlM_cons_of_some hcomma, ← List.cons_append, ← List.cons_append,
      foldlM_append_of_some hentry,
      ih fun entry' hentry' => h entry' (List.mem_cons_of_mem _ hentry'), List.reverse_cons,
      List.append_assoc, List.singleton_append]

theorem builds_object {entries : List (List UInt8 × Json)}
    (h : ∀ entry ∈ entries, Builds entry.2) : Builds (.object entries) := by
  intro frames
  cases entries with
  | nil => rfl
  | cons entry entries =>
    have hopen : step { frames } (.mark openObject) =
        some { frames, expect := .entryOrClose [] } := rfl
    have hentry : (.text entry.1 :: .mark colon :: tokens entry.2).foldlM step
        { frames, expect := .entryOrClose [] } =
          some { frames := .object [] entry.1 :: frames, expect := .afterValue entry.2 } :=
      foldlM_step_entry (h entry List.mem_cons_self) entry.1 [] frames
    rw [tokens, List.append_assoc]
    simp only [List.cons_append]
    rw [foldlM_cons_of_some hopen, ← List.cons_append, ← List.cons_append,
      foldlM_append_of_some hentry,
      foldlM_step_entries fun entry' hentry' => h entry' (List.mem_cons_of_mem _ hentry')]
    rfl

theorem builds_of_textual {value : Json} (h : Textual value) : Builds value := by
  induction h with
  | text cs => exact fun frames => rfl
  | list _ ih => exact builds_list ih
  | object _ _ ih => exact builds_object ih

end Builder

/-- Whatever its texts hold, a value whose leaves are texts is read back from its bytes. -/
theorem parse?_render {value : Json} (h : Textual value) : parse? value.render = some value := by
  unfold parse? render
  rw [tokens?_spellings (isPlain_tokens h), Option.bind_eq_bind, Option.bind_some, ofTokens?,
    Builder.builds_of_textual h]
  rfl

end BinaryAtlas.Json
