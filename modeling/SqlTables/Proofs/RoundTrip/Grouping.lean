import SqlTables.Declaration.Clause
import SqlTables.Proofs.RoundTrip.Spelling

/-! Groups and lists of tokens. What is balanced is passed over whole when a group is closed, when
the items of a column list are told apart, and when a list is cut at its commas. -/

namespace SqlTables

open Declaration
open Lexeme
open Text (Position)

/-- The number of groups left open after some tokens, if none of them closes more groups than were
open, and none ends a statement. -/
def nesting? : Nat → List Token → Option Nat
  | depth, [] => some depth
  | depth, t :: rest =>
    if t.kind = .eof ∨ t.kind = .semicolon then none
    else if t.kind = .leftParen then nesting? (depth + 1) rest
    else if t.kind = .rightParen then if depth = 0 then none else nesting? (depth - 1) rest
    else nesting? depth rest

def TokenKind.isInner : TokenKind → Bool
  | .eof | .semicolon | .leftParen | .rightParen => false
  | _ => true

variable {depth depth' : Nat} {ts rest : List Token} {t opening closing : Token}
  {as bs ws : List Lexeme}

theorem nesting?_of_isInner (h : ∀ t ∈ ts, t.kind.isInner = true) (depth : Nat) :
    nesting? depth ts = some depth := by
  induction ts with
  | nil => rfl
  | cons t ts ih =>
    rw [List.forall_mem_cons] at h
    obtain ⟨ht, hts⟩ := h
    have hne : t.kind ≠ .eof ∧ t.kind ≠ .semicolon ∧ t.kind ≠ .leftParen ∧
        t.kind ≠ .rightParen := by
      refine ⟨?_, ?_, ?_, ?_⟩ <;> intro hk <;> simp [hk, TokenKind.isInner] at ht
    simp [nesting?, hne, ih hts]

theorem closeGroup?_append (h : nesting? depth ts = some depth') (rest : List Token) :
    closeGroup? depth (ts ++ rest) =
      (closeGroup? depth' rest).map fun (inside, after) => (ts ++ inside, after) := by
  induction ts generalizing depth with
  | nil =>
    rw [nesting?, Option.some.injEq] at h
    subst h
    simp
  | cons t ts ih =>
    rw [nesting?] at h
    split_ifs at h with he hl hr hd
    · simp only [List.cons_append, closeGroup?, hl, ih h, Option.map_map]
      rfl
    · -- only a group opened among the tokens is closed, so the one searched for stays open
      obtain ⟨depth, rfl⟩ := Nat.exists_eq_succ_of_ne_zero hd
      have hts : closeGroup? depth (ts ++ rest) = _ := ih h
      simp [closeGroup?, hr, hts, Function.comp_def]
    · simp only [List.cons_append, closeGroup?, (not_or.1 he).1, hl, hr, ih h, Option.map_map]
      rfl

theorem group?_append (ho : opening.kind = .leftParen) (hc : closing.kind = .rightParen)
    (h : nesting? 0 ts = some 0) (rest : List Token) :
    group? (opening :: ts ++ closing :: rest) = some (⟨opening, ts, closing⟩, rest) := by
  rw [List.cons_append, group?, if_pos ho, closeGroup?_append h]
  simp [closeGroup?, hc]

def prepend (ts : List Token) : Option (List Item × List Token) → Option (List Item × List Token)
  | some (item :: items, after) =>
    some ({ item with tokens := ts ++ item.tokens } :: items, after)
  | _ => none

theorem prepend_append (as bs : List Token) (found : Option (List Item × List Token)) :
    prepend (as ++ bs) found = prepend as (prepend bs found) := by
  match found with
  | none | some ([], _) => rfl
  | some (item :: items, after) => simp [prepend]

def depthAfter (depth : Nat) (kind : TokenKind) : Nat :=
  match kind with
  | .leftParen => depth + 1
  | .rightParen => depth - 1
  | _ => depth

theorem depthAfter_of_isInner {kind : TokenKind} (h : kind.isInner = true) (depth : Nat) :
    depthAfter depth kind = depth := by
  unfold depthAfter
  split <;> simp_all [TokenKind.isInner]

theorem items?_cons (he : ¬(t.kind = .eof ∨ t.kind = .semicolon))
    (hd : depth = 0 → t.kind ≠ .rightParen ∧ t.kind ≠ .comma) (rest : List Token) :
    items? depth (t :: rest) = prepend [t] (items? (depthAfter depth t.kind) rest) := by
  rw [items?, if_neg he, if_neg fun h => (hd h.1).1 h.2, if_neg fun h => (hd h.1).2 h.2]
  rfl

theorem items?_close (hc : closing.kind = .rightParen) (rest : List Token) :
    items? 0 (closing :: rest) = some ([⟨[], closing⟩], rest) := by
  rw [items?, if_neg (by simp [hc]), if_pos ⟨rfl, hc⟩]

theorem items?_comma (hc : t.kind = .comma) (rest : List Token) :
    items? 0 (t :: rest) =
      (items? 0 rest).map fun found => (⟨[], t⟩ :: found.1, found.2) := by
  rw [items?, if_neg (by simp [hc]), if_neg (by simp [hc]), if_pos ⟨rfl, hc⟩]

theorem items?_ne_nil (depth : Nat) (ts after : List Token) :
    items? depth ts ≠ some ([], after) := by
  cases ts with
  | nil => simp [items?]
  | cons t ts =>
    rw [items?]
    split_ifs
    · simp
    · simp
    · simp
    · dsimp only
      split <;> simp

theorem prepend_nil_items? (depth : Nat) (ts : List Token) :
    prepend [] (items? depth ts) = items? depth ts := by
  match h : items? depth ts with
  | none => rfl
  | some ([], after) => exact absurd h (items?_ne_nil depth ts after)
  | some (item :: items, after) => rfl

theorem items?_append (h : nesting? depth ts = some depth') (rest : List Token) :
    items? (depth + 1) (ts ++ rest) = prepend ts (items? (depth' + 1) rest) := by
  induction ts generalizing depth with
  | nil =>
    rw [nesting?, Option.some.injEq] at h
    rw [h, prepend_nil_items?]
    rfl
  | cons t ts ih =>
    rw [nesting?] at h
    split_ifs at h with he hl hr hd
    · have hts := ih h
      rw [List.cons_append, items?_cons he (by simp), hl]
      exact (congrArg (prepend [t]) hts).trans (prepend_append [t] ts _).symm
    · obtain ⟨depth, rfl⟩ := Nat.exists_eq_succ_of_ne_zero hd
      have hts := ih h
      rw [List.cons_append, items?_cons he (by simp), hr]
      exact (congrArg (prepend [t]) hts).trans (prepend_append [t] ts _).symm
    · have hdepth : depthAfter (depth + 1) t.kind = depth + 1 := by
        unfold depthAfter
        split <;> simp_all
      rw [List.cons_append, items?_cons he (by simp), hdepth, ih h]
      exact (prepend_append [t] ts _).symm

def Enclosed (ts : List Token) : Prop :=
  ∀ rest, items? 0 (ts ++ rest) = prepend ts (items? 0 rest)

theorem Enclosed.nil : Enclosed [] := fun rest => (prepend_nil_items? 0 rest).symm

theorem Enclosed.append {as bs : List Token} (ha : Enclosed as) (hb : Enclosed bs) :
    Enclosed (as ++ bs) := fun rest => by
  rw [List.append_assoc, ha, hb, prepend_append]

theorem enclosed_cons (ht : t.kind.isInner = true) (hc : t.kind ≠ .comma) (h : Enclosed ts) :
    Enclosed (t :: ts) := by
  intro rest
  have he : ¬(t.kind = .eof ∨ t.kind = .semicolon) := by
    rintro (hk | hk) <;> simp [hk, TokenKind.isInner] at ht
  have hr : t.kind ≠ .rightParen := by
    intro hk
    simp [hk, TokenKind.isInner] at ht
  rw [List.cons_append, items?_cons he fun _ => ⟨hr, hc⟩, depthAfter_of_isInner ht, h,
    ← prepend_append]
  rfl

theorem enclosed_group (ho : opening.kind = .leftParen) (hc : closing.kind = .rightParen)
    (h : nesting? 0 ts = some 0) : Enclosed (opening :: ts ++ [closing]) := by
  intro rest
  have hopen : items? 0 (opening :: (ts ++ closing :: rest)) =
      prepend [opening] (items? 1 (ts ++ closing :: rest)) := by
    rw [items?_cons (by simp [ho]) (by simp [ho]), ho]
    rfl
  have hclose : items? 1 (closing :: rest) = prepend [closing] (items? 0 rest) := by
    rw [items?_cons (by simp [hc]) (by simp), hc]
    rfl
  have hs : opening :: ts ++ [closing] ++ rest = opening :: (ts ++ closing :: rest) := by simp
  rw [hs, hopen, items?_append h, hclose, ← prepend_append, ← prepend_append]
  rfl

def TokenKind.isPart (k : TokenKind) : Bool := k.isInner && k != .comma

theorem splitCommas_cons_part (h : t.kind.isPart = true) (depth : Nat) (rest : List Token) :
    splitCommas depth (t :: rest) =
      match splitCommas depth rest with
      | part :: parts => (t :: part) :: parts
      | [] => [[t]] := by
  rw [TokenKind.isPart, Bool.and_eq_true, bne_iff_ne] at h
  rw [splitCommas, if_neg fun hk => h.2 hk.1]
  change (match splitCommas (depthAfter depth t.kind) rest with
    | part :: parts => (t :: part) :: parts
    | [] => [[t]]) = _
  rw [depthAfter_of_isInner h.1]

theorem splitCommas_separated {w : Lexeme} (h : ∀ v ∈ w :: ws, v.kind.isPart = true)
    (p : Position) : ∃ ts : List Token, ts.map (·.kind) = (w :: ws).map (·.kind) ∧
      splitCommas 0 (tokensAt p (separated (w :: ws))) = ts.map fun t => [t] := by
  induction ws generalizing w p with
  | nil =>
    refine ⟨[w.token p], rfl, ?_⟩
    rw [separated, List.flatMap_nil, tokensAt_cons, tokensAt_nil,
      splitCommas_cons_part (h w (by simp))]
    rfl
  | cons v ws ih =>
    rw [List.forall_mem_cons] at h
    obtain ⟨ts, hkinds, hts⟩ := ih h.2 ((p.advance w.chars).advance (mark [] ',').chars)
    refine ⟨w.token p :: ts, by simp [hkinds, token], ?_⟩
    have hs : separated (w :: v :: ws) = w :: mark [] ',' :: separated (v :: ws) := rfl
    have hcomma (q : Position) : ((mark [] ',').token q).kind = .comma := rfl
    rw [hs, tokensAt_cons, tokensAt_cons, splitCommas_cons_part h.1, splitCommas,
      if_pos ⟨hcomma _, rfl⟩, hts]
    rfl

theorem isInner_of_isPart {k : TokenKind} (h : k.isPart = true) : k.isInner = true := by
  rw [TokenKind.isPart, Bool.and_eq_true] at h
  exact h.1

theorem nesting?_tokensAt (h : ∀ w ∈ ws, w.kind.isInner = true) (p : Position) :
    nesting? 0 (tokensAt p ws) = some 0 := by
  refine nesting?_of_isInner (fun t ht => ?_) 0
  obtain ⟨w, hw, q, rfl⟩ := exists_of_mem_tokensAt ht
  exact h w hw

theorem isInner_of_mem_separated (h : ∀ w ∈ ws, w.kind.isPart = true) :
    ∀ w ∈ separated ws, w.kind.isInner = true := by
  intro w hw
  cases ws with
  | nil => simp [separated] at hw
  | cons v ws =>
    rcases List.mem_cons.1 hw with rfl | hw
    · exact isInner_of_isPart (h _ (by simp))
    · obtain ⟨u, hu, hw⟩ := List.mem_flatMap.1 hw
      rcases List.mem_cons.1 hw with rfl | hw
      · rfl
      · rw [List.mem_singleton.1 hw]
        exact isInner_of_isPart (h _ (List.mem_cons_of_mem _ hu))

theorem enclosed_of_isPart (h : ∀ w ∈ ws, w.kind.isPart = true) (p : Position) :
    Enclosed (tokensAt p ws) := by
  induction ws generalizing p with
  | nil => exact .nil
  | cons w ws ih =>
    rw [List.forall_mem_cons] at h
    have hw : w.kind.isInner = true ∧ w.kind ≠ .comma := by
      simpa [TokenKind.isPart] using h.1
    exact enclosed_cons hw.1 hw.2 (ih h.2 _)

theorem tokensAt_group (p : Position) (gap : List Char) (inside rest : List Lexeme) :
    ∃ q q' q'', tokensAt p (group gap inside ++ rest) =
      (mark gap '(').token p :: tokensAt q inside ++
        (mark [] ')').token q' :: tokensAt q'' rest := by
  rw [group, List.cons_append, List.cons_append, tokensAt_cons, List.append_assoc, tokensAt_append,
    List.singleton_append, tokensAt_cons]
  exact ⟨_, _, _, rfl⟩

theorem group?_tokensAt {inside : List Lexeme} (h : ∀ q, nesting? 0 (tokensAt q inside) = some 0)
    (p : Position) (gap : List Char) (rest : List Lexeme) :
    ∃ g q q', group? (tokensAt p (group gap inside ++ rest)) = some (g, tokensAt q rest) ∧
      g.inside = tokensAt q' inside := by
  obtain ⟨q, q', q'', hs⟩ := tokensAt_group p gap inside rest
  rw [hs, group?_append rfl rfl (h q)]
  exact ⟨_, q'', q, rfl, rfl⟩

theorem enclosed_tokensAt_group {inside : List Lexeme}
    (h : ∀ q, nesting? 0 (tokensAt q inside) = some 0) (p : Position) (gap : List Char) :
    Enclosed (tokensAt p (group gap inside)) := by
  obtain ⟨q, q', q'', hs⟩ := tokensAt_group p gap inside []
  rw [List.append_nil] at hs
  rw [hs]
  exact enclosed_group rfl rfl (h q)

end SqlTables
