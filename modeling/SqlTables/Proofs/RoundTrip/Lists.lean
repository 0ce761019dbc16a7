import SqlTables.Dialect.PhysicalType
import SqlTables.Proofs.RoundTrip.Grouping
import SqlTables.Proofs.Text.Writing

/-! Words, lists of names and numerals as they are written and as they are read back. -/

namespace SqlTables

open Declaration Lexeme

variable {p : Text.Position} {rest : List Lexeme}

def Lexeme.words (ss : List String) : List Lexeme := ss.map (word [' '])

theorem sealed_word {gap : List Char} {s : String} (h : isBareWord s = true) (hg : Scan.Gap gap)
    (hn : gap ≠ []) : Sealed [word gap s] := (tight_word h hg).sealed hn

theorem sealed_words {ss : List String} (h : ∀ s ∈ ss, isBareWord s = true) :
    Sealed (words ss) := by
  have hflat : words ss = ss.flatMap fun s => [word [' '] s] := by
    rw [← List.map_eq_flatMap]
    rfl
  rw [hflat]
  exact .flatMap fun s hs => sealed_word (h s hs) gap_space (by simp)

theorem isPart_of_mem_words {ss : List String} {w : Lexeme} (h : w ∈ words ss) :
    w.kind.isPart = true := by
  obtain ⟨s, _, rfl⟩ := List.mem_map.1 h
  rfl

theorem textOf_words (ss : List String) :
    textOf (words ss) = ss.flatMap fun s => ' ' :: s.toList := by
  rw [words, textOf, List.flatMap_map]
  rfl

variable {d : Dialect}

theorem sealed_name {s : String} (h : d.Quotes s) : Sealed [name d [' '] s] :=
  (tight_name h gap_space).sealed (by simp [name])

theorem textOf_separated (w : Lexeme) (ws : List Lexeme) :
    textOf (separated (w :: ws)) = w.chars ++ ws.flatMap fun v => ',' :: v.chars := by
  have hcomma (v : Lexeme) : textOf [mark [] ',', v] = ',' :: v.chars := by
    simp [mark, chars]
  have hall : (fun v => textOf [mark [] ',', v]) = fun v => ',' :: v.chars := funext hcomma
  rw [separated, textOf_cons, textOf_flatMap, hall]
  rfl

def Lexeme.nameParts (d : Dialect) : List String → List Lexeme
  | [] => []
  | a :: as => name d [] a :: as.map (name d [' '])

def Lexeme.names (d : Dialect) (as : List String) : List Lexeme :=
  group [' '] (separated (nameParts d as))

theorem textOf_names (d : Dialect) (as : List String) :
    textOf (names d as) = ' ' :: (d.nameList as).toList := by
  have hlist : textOf (separated (nameParts d as)) =
      (", ".intercalate (as.map d.quoteName)).toList := by
    cases as with
    | nil => simp [nameParts, separated]
    | cons a as =>
      have hsep : ", ".toList = [',', ' '] := by decide
      have hparts : (as.map (name d [' '])).flatMap (fun v => ',' :: v.chars) =
          (as.map fun b => (d.quoteName b).toList).flatMap ([',', ' '] ++ ·) := by
        rw [List.flatMap_map, List.flatMap_map]
        rfl
      rw [nameParts, textOf_separated, hparts, chars_name, List.nil_append,
        String.toList_intercalate, List.map_map, List.map_cons, hsep, intercalate_cons]
      simp only [Function.comp_def]
  simp [names, group, hlist, Dialect.nameList, mark]

theorem kind_of_mem_nameParts {as : List String} {w : Lexeme} (h : w ∈ nameParts d as) :
    ∃ a, w.kind = .quotedName a := by
  cases as with
  | nil => simp [nameParts] at h
  | cons a as =>
    rcases List.mem_cons.1 h with rfl | h
    · exact ⟨a, rfl⟩
    · obtain ⟨b, _, rfl⟩ := List.mem_map.1 h
      exact ⟨b, rfl⟩

theorem isPart_of_mem_nameParts {as : List String} {w : Lexeme} (h : w ∈ nameParts d as) :
    w.kind.isPart = true := by
  obtain ⟨a, ha⟩ := kind_of_mem_nameParts h
  rw [ha]
  rfl

theorem tight_nameParts {as : List String} (h : ∀ a ∈ as, d.Quotes a) :
    Tight (separated (nameParts d as)) := by
  apply tight_separated
  intro w hw
  cases as with
  | nil => simp [nameParts] at hw
  | cons a as =>
    rw [List.forall_mem_cons] at h
    rcases List.mem_cons.1 hw with rfl | hw
    · exact tight_name h.1 gap_nil
    · obtain ⟨b, hb, rfl⟩ := List.mem_map.1 hw
      exact tight_name (h.2 b hb) gap_space

theorem sealed_names {as : List String} (h : ∀ a ∈ as, d.Quotes a) : Sealed (names d as) :=
  sealed_group (tight_nameParts h) gap_space

theorem nesting?_nameParts (d : Dialect) (as : List String) (p : Text.Position) :
    nesting? 0 (tokensAt p (separated (nameParts d as))) = some 0 :=
  nesting?_tokensAt (isInner_of_mem_separated fun _ => isPart_of_mem_nameParts) p

theorem enclosed_names (d : Dialect) (as : List String) (p : Text.Position) :
    Enclosed (tokensAt p (names d as)) :=
  enclosed_tokensAt_group (nesting?_nameParts d as) p [' ']

theorem mapM_name?_of_kinds {ts : List Token} {as : List String}
    (h : ts.map (·.kind) = as.map .quotedName) :
    (ts.map fun t => [t]).mapM (fun part => (name? part).map (·.1)) = some as := by
  induction ts generalizing as with
  | nil =>
    cases as with
    | nil => rfl
    | cons a as => simp at h
  | cons t ts ih =>
    cases as with
    | nil => simp at h
    | cons a as =>
      rw [List.map_cons, List.map_cons, List.cons.injEq] at h
      have ht : (name? [t]).map (·.1) = some a := by
        simp [name?, Token.name?, h.1]
      rw [List.map_cons, List.mapM_cons, ht, ih h.2]
      rfl

theorem columnNames?_nameParts {as : List String} (h : as ≠ []) (p : Text.Position) :
    columnNames? (tokensAt p (separated (nameParts d as))) = some as := by
  cases as with
  | nil => exact absurd rfl h
  | cons a as =>
    obtain ⟨ts, hkinds, hts⟩ := splitCommas_separated
      (fun v hv => @isPart_of_mem_nameParts d (a :: as) v hv) p
    have hnames : ts.map (·.kind) = (a :: as).map .quotedName := by
      rw [hkinds, List.map_cons, List.map_map]
      rfl
    rw [columnNames?, nameParts, hts]
    exact mapM_name?_of_kinds hnames

theorem group?_names (d : Dialect) (as : List String) (p : Text.Position) (rest : List Lexeme) :
    ∃ g q q', group? (tokensAt p (names d as ++ rest)) = some (g, tokensAt q rest) ∧
      g.inside = tokensAt q' (separated (nameParts d as)) :=
  group?_tokensAt (nesting?_nameParts d as) p [' '] rest

theorem columns?_names {as : List String} (h : as ≠ []) (p : Text.Position) (rest : List Lexeme) :
    ∃ q, Clause.columns? (tokensAt p (names d as ++ rest)) = some (as, tokensAt q rest) := by
  obtain ⟨g, q, q', hg, hinside⟩ := group?_names d as p rest
  refine ⟨q, ?_⟩
  rw [Clause.columns?, hg]
  simp [hinside, columnNames?_nameParts h]

theorem isNumeral_toString (n : Nat) : isNumeral (toString n) = true := by
  have hminus := head?_toString_ne (c := '-') (by decide) n
  rw [isNumeral, Scan.number?_eq_magnitude? hminus, Scan.magnitude?, digits?_toString]
  simp [Scan.extend, Scan.fraction?, Scan.exponent?]

theorem uint32?_toString (n : UInt32) : Text.uint32? (toString n.toNat).toList = some n := by
  have hn : n.toNat < UInt32.size := n.toNat_lt
  rw [Text.uint32?, unsigned?_toString]
  simp [hn]

theorem uint64?_toString (n : UInt64) : Text.uint64? (toString n.toNat).toList = some n := by
  have hn : n.toNat < UInt64.size := n.toNat_lt
  rw [Text.uint64?, unsigned?_toString]
  simp [hn]

end SqlTables
