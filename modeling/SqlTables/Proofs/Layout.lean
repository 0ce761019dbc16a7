import SqlTables.Proofs.Relaid.Draft
import SqlTables.Proofs.Token.Lossless

/-! Layout. Two texts with the same tokens, however they are spread over lines and whatever blanks
and comments were between them, give drafts that are the same but for source texts, or fail in the
same way. Only a string that touches the word before it is told from one that does not. -/

namespace SqlTables

inductive ParseError.SameVariant : ParseError → ParseError → Prop where
  | missingHeader : SameVariant .missingHeader .missingHeader
  | unterminatedColumnList (line column line' column' : Nat) :
      SameVariant (.unterminatedColumnList line column) (.unterminatedColumnList line' column')
  | unreadableItem (fragment fragment' : String) (line column line' column' : Nat) :
      SameVariant (.unreadableItem fragment line column)
        (.unreadableItem fragment' line' column')

/-- Drafts of two lists of tokens that differ in source texts only, or errors of the same sort. -/
inductive Draft.SameOutcome (xs ys : List Token) :
    Except ParseError Draft → Except ParseError Draft → Prop where
  | error {e e' : ParseError} (h : e.SameVariant e') : SameOutcome xs ys (.error e) (.error e')
  | ok {d d' : Draft} (h : d.SameButSources xs ys d') : SameOutcome xs ys (.ok d) (.ok d')

namespace Token

variable {xs ys : List Token} {text : String}

/-- For each token but the last, whether it is a word that the string after it touches. -/
def touching : List Token → List Bool
  | t :: u :: rest => (t.isWord && u.isString && u.gap == "") :: touching (u :: rest)
  | _ => []

theorem exists_map_eq (hxs : xs.Nodup) (hkinds : xs.map kind = ys.map kind) :
    ∃ f : Token → Token, (∀ t, (f t).kind = t.kind) ∧ xs.map f = ys := by
  induction xs generalizing ys with
  | nil => exact ⟨id, fun _ => rfl, (List.map_eq_nil_iff.1 hkinds.symm).symm⟩
  | cons x xs ih =>
    obtain ⟨y, ys, rfl, hy, htail⟩ := List.map_eq_cons_iff.1 hkinds.symm
    obtain ⟨hx, hxs⟩ := List.nodup_cons.1 hxs
    obtain ⟨f, hf, rfl⟩ := ih hxs htail.symm
    refine ⟨fun t => if t = x then y else f t, fun t => ?_, ?_⟩
    · by_cases ht : t = x
      · simp [ht, hy]
      · simp [ht, hf]
    · have hmap : xs.map (fun t => if t = x then y else f t) = xs.map f :=
        List.map_congr_left fun t ht => if_neg (ne_of_mem_of_not_mem ht hx)
      rw [List.map_cons, if_pos rfl, hmap]

theorem nodup_of_tokenize (h : tokenize text = .ok xs) : xs.Nodup := by
  obtain ⟨us, gap, rfl, htiling⟩ := tiling_of_tokenize_ok h
  refine List.nodup_append.2 ⟨?_, by simp, ?_⟩
  · refine htiling.ordered.imp_of_mem fun {t u} ht _ hle he => ?_
    have hlt := htiling.nonempty t ht
    rw [he] at hle hlt
    exact absurd hle (by omega)
  · rintro t ht u hu rfl
    rw [List.mem_singleton] at hu
    exact htiling.ne_eof t ht (by rw [hu])

theorem lexeme_of_word (h : tokenize text = .ok xs) {t : Token} (ht : t ∈ xs) {word : String}
    (hk : t.kind = .word word) : t.lexeme = word := by
  obtain ⟨us, gap, rfl, htiling⟩ := tiling_of_tokenize_ok h
  rcases List.mem_append.1 ht with ht | ht
  · obtain ⟨_, _, _, _, r, -, hr⟩ := htiling.written t ht
    rw [hk] at hr
    cases r <;> simp [TokenRule.kind?] at hr
    exact hr
  · rw [List.mem_singleton.1 ht] at hk
    exact absurd hk (by simp)

theorem isChain_of_touching {f : Token → Token} (hf : ∀ t, (f t).kind = t.kind)
    (h : touching xs = touching (xs.map f)) :
    xs.IsChain fun t u => t.isWord = true → u.isString = true → ((f u).gap = "" ↔ u.gap = "") := by
  have hword (t : Token) : (f t).isWord = t.isWord := by rw [isWord, isWord, hf]
  have hstring (t : Token) : (f t).isString = t.isString := by rw [isString, isString, hf]
  induction xs with
  | nil => exact .nil
  | cons t xs ih =>
    cases xs with
    | nil => exact .singleton t
    | cons u xs =>
      rw [List.map_cons, List.map_cons, touching, touching, hword, hstring, List.cons.injEq] at h
      refine .cons_cons (fun ht hu => ?_) (ih h.2)
      have hgap := h.1
      rw [ht, hu, Bool.true_and, Bool.true_and, Bool.true_and] at hgap
      rw [← beq_iff_eq, ← beq_iff_eq (a := u.gap), hgap]

theorem exists_relays {x y : String} (hx : tokenize x = .ok xs) (hy : tokenize y = .ok ys)
    (hkinds : xs.map kind = ys.map kind) (htouching : touching xs = touching ys) :
    ∃ f, Relays f xs ∧ xs.map f = ys := by
  obtain ⟨f, hf, rfl⟩ := exists_map_eq (nodup_of_tokenize hx) hkinds
  refine ⟨f, ⟨hf, fun t ht hw => ?_, isChain_of_touching hf htouching⟩, rfl⟩
  obtain ⟨word, hword⟩ : ∃ word, t.kind = .word word := by
    unfold isWord at hw
    split at hw
    · exact ⟨_, ‹_›⟩
    · exact absurd hw (by simp)
  rw [lexeme_of_word hx ht hword, lexeme_of_word hy (List.mem_map_of_mem ht) ((hf t).trans hword)]

end Token

namespace Draft

theorem RelaidError.sameVariant {f : Token → Token} {source : List Token} {e e' : ParseError}
    (h : RelaidError f source e e') : e.SameVariant e' := by
  cases h with
  | missingHeader => exact .missingHeader
  | unterminatedColumnList t => exact .unterminatedColumnList _ _ _ _
  | unreadable i => exact .unreadableItem _ _ _ _ _ _

/-- The layout of a text changes nothing but the source texts of its draft. -/
theorem sameOutcome_of_kinds {x y : String} {xs ys : List Token}
    (hx : Token.tokenize x = .ok xs) (hy : Token.tokenize y = .ok ys)
    (hkinds : xs.map Token.kind = ys.map Token.kind)
    (htouching : Token.touching xs = Token.touching ys) :
    SameOutcome xs ys (read xs) (read ys) := by
  obtain ⟨f, hf, rfl⟩ := Token.exists_relays hx hy hkinds htouching
  have h := read_relaid hf
  generalize read xs = first at h ⊢
  generalize read (xs.map f) = second at h ⊢
  cases h with
  | error h => exact .error h.sameVariant
  | ok h => exact .ok h

theorem sameOutcome_of_kinds_spaced :
    ∃ xs ys, Token.tokenize "CREATE TABLE t(a INT DEFAULT(1),b INT DEFAULT x'4')" = .ok xs ∧
      Token.tokenize "CREATE TABLE t (\n\ta INT DEFAULT ( 1 ) ,\n\tb INT DEFAULT x'4'\n)" = .ok ys ∧
      xs.map Token.kind = ys.map Token.kind ∧ Token.touching xs = Token.touching ys ∧
      SameOutcome xs ys (read xs) (read ys) := by
  have hx : Token.tokenize "CREATE TABLE t(a INT DEFAULT(1),b INT DEFAULT x'4')" =
      .ok ((Token.tokenize "CREATE TABLE t(a INT DEFAULT(1),b INT DEFAULT x'4')").toOption.getD
        []) := by
    decide +kernel
  have hy : Token.tokenize
      "CREATE TABLE t (\n\ta INT DEFAULT ( 1 ) ,\n\tb INT DEFAULT x'4'\n)" =
      .ok ((Token.tokenize
        "CREATE TABLE t (\n\ta INT DEFAULT ( 1 ) ,\n\tb INT DEFAULT x'4'\n)").toOption.getD
        []) := by
    decide +kernel
  exact ⟨_, _, hx, hy, by decide +kernel, by decide +kernel,
    sameOutcome_of_kinds hx hy (by decide +kernel) (by decide +kernel)⟩

end Draft

end SqlTables
