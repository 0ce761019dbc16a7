import Mathlib.Data.List.Infix
import SqlTables.Proofs.Source.Literals
import SqlTables.Proofs.Source.Uncommented

/-! The parts of a text. Code, literals and comments follow one another from the beginning of the
text, each as long as its own rules make it, and the marks of the text are those of its parts. -/

namespace SqlTables.Source

def blockEnd : List Char := ['*', '/']

/-- A text taken apart from its beginning, with the region of every character. -/
inductive Parted : List Char → List (Char × Region) → Prop where
  | nil : Parted [] []
  | code {c : Char} {cs : List Char} {ms : List (Char × Region)} (hq : isQuote c = false)
      (ho : ¬OpensComment c cs.head?) (h : Parted cs ms) : Parted (c :: cs) ((c, .code) :: ms)
  | literal {quote : Char} {inside cs : List Char} {ms : List (Char × Region)}
      (hq : isQuote quote = true)
      (hc : closing? (quote ≠ '\x60') quote (inside ++ quote :: cs) = some (inside, cs))
      (h : Parted cs ms) :
      Parted (quote :: (inside ++ quote :: cs))
        ((quote :: (inside ++ [quote])).map (·, .quoted) ++ ms)
  | openLiteral {quote : Char} {cs : List Char} (hq : isQuote quote = true)
      (hc : closing? (quote ≠ '\x60') quote cs = none) :
      Parted (quote :: cs) ((quote :: cs).map (·, .quoted))
  | lineComment {opening body cs : List Char} {ms : List (Char × Region)}
      (ho : opening = ['-', '-'] ∨ opening = ['#']) (hb : '\n' ∉ body)
      (hcs : ∀ c, cs.head? = some c → c = '\n') (h : Parted cs ms) :
      Parted (opening ++ (body ++ cs)) ((opening ++ body).map (·, .comment) ++ ms)
  | blockComment {body cs : List Char} {ms : List (Char × Region)} (hb : ¬blockEnd <:+: body)
      (h : Parted cs ms) :
      Parted ('/' :: '*' :: (body ++ (blockEnd ++ cs)))
        (('/' :: '*' :: (body ++ blockEnd)).map (·, .comment) ++ ms)
  | openBlockComment {body : List Char} (hb : ¬blockEnd <:+: body) :
      Parted ('/' :: '*' :: body) (('/' :: '*' :: body).map (·, .comment))

variable {c quote : Char} {opening body inside cs : List Char} {ms : List (Char × Region)}

theorem markFrom_openLiteral (h : closing? (quote ≠ '\x60') quote cs = none) :
    markFrom true (.literal quote) cs = cs.map (·, .quoted) := by
  fun_induction closing? (quote ≠ '\x60') quote cs with
  | case1 => rfl
  | case2 => simp at h
  | case3 c hs => simp [markFrom, marking, literalMarking_region]
  | case4 => simp at h
  | case5 c d rest hs ih =>
    have hm : marking true (.literal quote) c (some d) = ⟨.quoted, .literal quote, true⟩ :=
      marking_literal _ hs
    rw [markFrom_cons_cons (by rw [hm]), hm, ih (Option.map_eq_none_iff.1 h)]
    rfl
  | case6 c d rest hs ih =>
    have hm : marking true (.literal quote) c (some d) = ⟨.quoted, .literal quote, false⟩ :=
      marking_literal _ hs
    rw [markFrom_cons (by rw [List.head?_cons, hm]), List.head?_cons, hm,
      ih (Option.map_eq_none_iff.1 h)]
    rfl

theorem markFrom_blockComment (hb : ¬blockEnd <:+: body) (hcs : cs.head? ≠ some '/') :
    markFrom true .blockComment (body ++ cs) =
      body.map (·, .comment) ++ markFrom true .blockComment cs := by
  induction body with
  | nil => rfl
  | cons c body ih =>
    rw [List.infix_cons_iff, not_or] at hb
    have hend : ¬(c = '*' ∧ (body ++ cs).head? = some '/') := by
      rintro ⟨rfl, hnext⟩
      cases body with
      | nil => exact hcs hnext
      | cons d body =>
        rw [List.cons_append, List.head?_cons, Option.some.injEq] at hnext
        exact hb.1 ⟨body, by rw [hnext]; rfl⟩
    have hm : marking true .blockComment c (body ++ cs).head? =
        ⟨.comment, .blockComment, false⟩ := by
      simpa [marking] using hend
    rw [List.cons_append, markFrom_cons (by rw [hm]), hm, ih hb.2]
    rfl

theorem markFrom_blockEnd (cs : List Char) :
    markFrom true .blockComment (blockEnd ++ cs) =
      blockEnd.map (·, .comment) ++ markFrom true .code cs := by
  have hm : marking true .blockComment '*' (some '/') = ⟨.comment, .code, true⟩ := rfl
  rw [blockEnd, List.cons_append, List.cons_append, markFrom_cons_cons (by rw [hm]), hm]
  rfl

theorem Parted.mark_eq (h : Parted cs ms) : mark true cs = ms := by
  unfold mark
  induction h with
  | nil => rfl
  | @code c cs ms hq ho _ ih =>
    have hm : marking true .code c cs.head? = ⟨.code, .code, false⟩ :=
      marking_code_of_not_quote hq fun _ => ho
    rw [markFrom_cons (by rw [hm]), hm, ih]
  | literal hq hc _ ih => rw [markFrom_quoted hq hc, ih]
  | @openLiteral quote cs hq hc =>
    have hm (next : Option Char) :
        marking true .code quote next = ⟨.quoted, .literal quote, false⟩ :=
      marking_code_of_quote hq
    rw [markFrom_cons (by rw [hm]), hm, markFrom_openLiteral hc]
    rfl
  | lineComment ho hb hcs _ ih =>
    have hdash : marking true .code '-' (some '-') = ⟨.comment, .lineComment, true⟩ := rfl
    have hhash (next : Option Char) :
        marking true .code '#' next = ⟨.comment, .lineComment, false⟩ := rfl
    rcases ho with rfl | rfl
    · rw [List.cons_append, List.cons_append, markFrom_cons_cons (by rw [hdash]), hdash,
        List.nil_append, markFrom_lineComment hb hcs, ih]
      rfl
    · rw [List.cons_append, markFrom_cons (by rw [hhash]), hhash, List.nil_append,
        markFrom_lineComment hb hcs, ih]
      rfl
  | blockComment hb _ ih =>
    have hm : marking true .code '/' (some '*') = ⟨.comment, .blockComment, true⟩ := rfl
    rw [markFrom_cons_cons (by rw [hm]), hm, markFrom_blockComment hb (by simp [blockEnd]),
      markFrom_blockEnd, ih]
    simp
  | @openBlockComment body hb =>
    have hm : marking true .code '/' (some '*') = ⟨.comment, .blockComment, true⟩ := rfl
    have hbody : markFrom true .blockComment (body ++ []) = body.map (·, .comment) ++ [] :=
      markFrom_blockComment hb (by simp)
    rw [List.append_nil, List.append_nil] at hbody
    rw [markFrom_cons_cons (by rw [hm]), hm, hbody]
    rfl

theorem exists_of_infix (h : blockEnd <:+: cs) :
    ∃ body rest, cs = body ++ (blockEnd ++ rest) ∧ ¬blockEnd <:+: body := by
  induction cs with
  | nil => simp [blockEnd] at h
  | cons c cs ih =>
    by_cases hp : blockEnd <+: c :: cs
    · obtain ⟨rest, hrest⟩ := hp
      exact ⟨[], rest, hrest.symm, by simp [blockEnd]⟩
    · obtain ⟨body, rest, rfl, hb⟩ := ih ((List.infix_cons_iff.1 h).resolve_left hp)
      refine ⟨c :: body, rest, rfl, fun hi => ?_⟩
      rcases List.infix_cons_iff.1 hi with hi | hi
      · exact hp (hi.trans (List.prefix_append (c :: body) (blockEnd ++ rest)))
      · exact hb hi

theorem exists_of_line (cs : List Char) :
    ∃ body rest, cs = body ++ rest ∧ '\n' ∉ body ∧ ∀ c, rest.head? = some c → c = '\n' := by
  refine ⟨cs.takeWhile (· ≠ '\n'), cs.dropWhile (· ≠ '\n'), by simp, fun hmem => ?_,
    fun c hc => ?_⟩
  · have hne := List.mem_takeWhile_imp hmem
    simp at hne
  · have hnot := List.head?_dropWhile_not (· ≠ '\n') cs
    rw [hc] at hnot
    simpa using hnot

theorem exists_parted (cs : List Char) : ∃ ms, Parted cs ms := by
  -- after a part the text goes on with fewer characters
  induction hn : cs.length using Nat.strongRecOn generalizing cs with
  | ind n ih =>
    subst hn
    have hline {opening rest : List Char} (ho : opening = ['-', '-'] ∨ opening = ['#'])
        (hcs : cs = opening ++ rest) : ∃ ms, Parted cs ms := by
      obtain ⟨body, after, rfl, hb, hafter⟩ := exists_of_line rest
      have hopening : 0 < opening.length := by rcases ho with rfl | rfl <;> simp
      have hlt : after.length < cs.length := by
        rw [hcs, List.length_append, List.length_append]
        omega
      obtain ⟨ms, hms⟩ := ih _ hlt after rfl
      rw [hcs]
      exact ⟨_, .lineComment ho hb hafter hms⟩
    cases cs with
    | nil => exact ⟨[], .nil⟩
    | cons c cs =>
      by_cases hq : isQuote c = true
      · cases hc : closing? (c ≠ '\x60') c cs with
        | none => exact ⟨_, .openLiteral hq hc⟩
        | some found =>
          obtain ⟨inside, after⟩ := found
          obtain rfl := eq_append_of_closing? hc
          obtain ⟨ms, hms⟩ := ih after.length (by simp; omega) after rfl
          exact ⟨_, .literal hq hc hms⟩
      · by_cases ho : OpensComment c cs.head?
        · rcases ho with rfl | ⟨rfl, hnext⟩ | ⟨rfl, hnext⟩
          · exact hline (.inr rfl) rfl
          · obtain ⟨rest, rfl⟩ := List.head?_eq_some_iff.1 hnext
            exact hline (.inl rfl) rfl
          · obtain ⟨rest, rfl⟩ := List.head?_eq_some_iff.1 hnext
            by_cases hb : blockEnd <:+: rest
            · obtain ⟨body, after, rfl, hbody⟩ := exists_of_infix hb
              obtain ⟨ms, hms⟩ := ih after.length (by simp; omega) after rfl
              exact ⟨_, .blockComment hbody hms⟩
            · exact ⟨_, .openBlockComment hb⟩
        · obtain ⟨ms, hms⟩ := ih cs.length (by simp) cs rfl
          exact ⟨_, .code (by simpa using hq) ho hms⟩

theorem parted_iff : Parted cs ms ↔ mark true cs = ms := by
  refine ⟨Parted.mark_eq, ?_⟩
  rintro rfl
  obtain ⟨ms, hms⟩ := exists_parted cs
  rwa [hms.mark_eq]

end SqlTables.Source
