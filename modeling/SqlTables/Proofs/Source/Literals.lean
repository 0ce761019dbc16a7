import Mathlib.Tactic.SplitIfs
import SqlTables.Proofs.Source.Marking
import SqlTables.Proofs.Token.Scanning

/-! Reading literals. A reading that knows escapes and one that does not agree on a literal unless a
backslash stands before a quote in it. -/

namespace SqlTables.Source

variable {escapes : Bool} {quote c d : Char} {cs inside after : List Char}

theorem isQuote_iff : isQuote c = true ↔ c = '\x27' ∨ c = '\x22' ∨ c = '\x60' := by
  simp [isQuote, or_assoc]

theorem not_quote_of_class {p : Char → Bool}
    (hp : p '\x27' = false ∧ p '\x22' = false ∧ p '\x60' = false) (h : p c = true) :
    isQuote c = false := by
  by_contra hq
  rw [Bool.not_eq_false, isQuote_iff] at hq
  obtain ⟨h1, h2, h3⟩ := hp
  rcases hq with rfl | rfl | rfl <;> simp_all

theorem closing?_cons_of_ne (hq : c ≠ quote) (hb : escapes = true → c ≠ '\\') (cs : List Char) :
    closing? escapes quote (c :: cs) =
      (closing? escapes quote cs).map fun (inside, after) => (c :: inside, after) := by
  have hstep (next : Option Char) : literalStep escapes quote c next = .single := by
    unfold literalStep
    grind
  cases cs with
  | nil => simp [closing?, hstep]
  | cons d rest => simp [closing?, hstep]

theorem closing?_backslash (quote d : Char) (cs : List Char) :
    closing? true quote ('\\' :: d :: cs) =
      (closing? true quote cs).map fun (inside, after) => ('\\' :: d :: inside, after) := by
  simp [closing?, literalStep]

theorem closing?_doubled (hb : escapes = true → quote ≠ '\\') (cs : List Char) :
    closing? escapes quote (quote :: quote :: cs) =
      (closing? escapes quote cs).map fun (inside, after) => (quote :: quote :: inside, after) := by
  have hstep : literalStep escapes quote quote (some quote) = .pair := by
    unfold literalStep
    grind
  simp [closing?, hstep]

theorem closing?_quote (hb : escapes = true → quote ≠ '\\') (hn : cs.head? ≠ some quote) :
    closing? escapes quote (quote :: cs) = some ([], cs) := by
  have hstep : literalStep escapes quote quote cs.head? = .close := by
    unfold literalStep
    grind
  cases cs with
  | nil => simpa [closing?] using hstep
  | cons d rest =>
    rw [List.head?_cons] at hstep
    simp [closing?, hstep]

/-- Whether a backslash, not itself taken along by another, stands before the quote. -/
def escapesQuote (quote : Char) : List Char → Bool
  | [] | [_] => false
  | c :: d :: rest =>
    if c = '\\' then d == quote || escapesQuote quote rest else escapesQuote quote (d :: rest)

/-- Quotes pair up in only one way: of two readings of a run of quotes, one begun a quote later than
the other, the one closes the literal inside a pair of the other. -/
theorem ne_of_closing?_quote_cons {e e' : Bool} (hb : quote ≠ '\\') {inside' after' : List Char}
    (h : closing? e quote (quote :: cs) = some (inside, after))
    (h' : closing? e' quote cs = some (inside', after')) : inside ≠ quote :: inside' := by
  -- a pair takes two characters, so the induction is on the length
  induction hn : cs.length using Nat.strongRecOn generalizing cs inside inside' with
  | ind n ih =>
    subst hn
    cases cs with
    | nil => simp [closing?] at h'
    | cons d rest =>
      by_cases hd : d = quote
      · subst hd
        rw [closing?_doubled fun _ => hb] at h
        obtain ⟨⟨i, a⟩, hi, he⟩ := Option.map_eq_some_iff.1 h
        simp only [Prod.mk.injEq] at he
        obtain ⟨rfl, rfl⟩ := he
        cases rest with
        | nil => simp [closing?] at hi
        | cons e rest =>
          by_cases he : e = d
          · subst he
            rw [closing?_doubled fun _ => hb] at h'
            obtain ⟨⟨i', a'⟩, hi', he'⟩ := Option.map_eq_some_iff.1 h'
            simp only [Prod.mk.injEq] at he'
            obtain ⟨rfl, rfl⟩ := he'
            have hne := ih _ (by simp only [List.length_cons]; omega) hi hi' rfl
            simpa using hne
          · rw [closing?_quote (fun _ => hb) (by simpa using he)] at h'
            simp only [Option.some.injEq, Prod.mk.injEq] at h'
            simp [← h'.1]
      · rw [closing?_quote (fun _ => hb) (by simpa using hd)] at h
        simp only [Option.some.injEq, Prod.mk.injEq] at h
        simp [← h.1]

theorem escapesQuote_cons (hc : c ≠ '\\') (cs : List Char) :
    escapesQuote quote (c :: cs) = escapesQuote quote cs := by
  cases cs with
  | nil => rfl
  | cons d rest => simp [escapesQuote, hc]

theorem map_append_eq_some_iff {found : Option (List Char × List Char)} (read : List Char) :
    (found.map fun (inside, after) => (read ++ inside, after)) = some (read ++ inside, after) ↔
      found = some (inside, after) := by
  cases found <;> simp [Prod.ext_iff]

theorem closing?_true_eq_iff (hb : quote ≠ '\\')
    (h : closing? false quote cs = some (inside, after)) :
    closing? true quote cs = some (inside, after) ↔
      escapesQuote quote (inside ++ [quote]) = false := by
  induction hn : cs.length using Nat.strongRecOn generalizing cs inside with
  | ind n ih =>
    subst hn
    cases cs with
    | nil => simp [closing?] at h
    | cons c cs =>
      by_cases hc : c = quote
      · subst hc
        by_cases hd : cs.head? = some c
        · obtain ⟨rest, rfl⟩ := List.head?_eq_some_iff.1 hd
          rw [closing?_doubled fun _ => hb] at h ⊢
          obtain ⟨⟨i, a⟩, hi, he⟩ := Option.map_eq_some_iff.1 h
          simp only [Prod.mk.injEq] at he
          obtain ⟨rfl, rfl⟩ := he
          have hrest := ih _ (by simp only [List.length_cons]; omega) hi rfl
          rw [List.cons_append, List.cons_append, escapesQuote_cons hb, escapesQuote_cons hb,
            ← hrest]
          exact map_append_eq_some_iff [c, c]
        · rw [closing?_quote (fun _ => hb) hd] at h ⊢
          simp only [Option.some.injEq, Prod.mk.injEq] at h
          obtain ⟨rfl, rfl⟩ := h
          simp [escapesQuote]
      · rw [closing?_cons_of_ne hc (by simp)] at h
        obtain ⟨⟨i, a⟩, hi, he⟩ := Option.map_eq_some_iff.1 h
        simp only [Prod.mk.injEq] at he
        obtain ⟨rfl, rfl⟩ := he
        by_cases hs : c = '\\'
        · subst hs
          cases cs with
          | nil => simp [closing?] at hi
          | cons d rest =>
            rw [closing?_backslash]
            by_cases hd : d = quote
            · -- one reading goes on after the quote that ends the other
              subst hd
              have hescapes : escapesQuote d ('\\' :: i ++ [d]) = true := by
                have happ := eq_append_of_closing? hi
                cases i with
                | nil => simp [escapesQuote]
                | cons e i =>
                  rw [List.cons_append, List.cons.injEq] at happ
                  simp [escapesQuote, happ.1]
              rw [hescapes]
              refine iff_of_false (fun h' => ?_) (by simp)
              obtain ⟨⟨i', a'⟩, hi', he⟩ := Option.map_eq_some_iff.1 h'
              simp only [Prod.mk.injEq, List.cons.injEq, true_and] at he
              exact ne_of_closing?_quote_cons hb hi hi' he.1.symm
            · rw [closing?_cons_of_ne hd (by simp)] at hi
              obtain ⟨⟨i', a'⟩, hi', he⟩ := Option.map_eq_some_iff.1 hi
              simp only [Prod.mk.injEq] at he
              obtain ⟨rfl, rfl⟩ := he
              have hrest := ih _ (by simp only [List.length_cons]; omega) hi' rfl
              have hescapes : escapesQuote quote ('\\' :: d :: i' ++ [quote]) =
                  escapesQuote quote (i' ++ [quote]) := by
                simp [escapesQuote, hd]
              rw [hescapes, ← hrest]
              exact map_append_eq_some_iff ['\\', d]
        · have hrest := ih _ (by simp) hi rfl
          rw [closing?_cons_of_ne hc fun _ => hs, List.cons_append, escapesQuote_cons hs, ← hrest]
          exact map_append_eq_some_iff [c]

def edge (mode mode' : Mode) (start stop : Nat) : List Nat :=
  match mode, mode' with
  | .code, .literal _ => [start]
  | .literal _, .code => [stop]
  | _, _ => []

/-- The places at which literals begin and end, in turn, where each character has a width. -/
def boundsFrom (width : Char → Nat) (comments : Bool) : Mode → Nat → List Char → List Nat
  | _, _, [] => []
  | mode, i, [c] => edge mode (marking comments mode c none).mode i (i + width c)
  | mode, i, c :: d :: rest =>
    let m := marking comments mode c (some d)
    if m.takesNext then
      let stop := i + width c + width d
      edge mode m.mode i stop ++ boundsFrom width comments m.mode stop rest
    else
      let stop := i + width c
      edge mode m.mode i stop ++ boundsFrom width comments m.mode stop (d :: rest)

def literalBounds (comments : Bool) (text : String) : List Nat :=
  boundsFrom Char.utf8Size comments .code 0 text.toList

variable {width : Char → Nat} {comments : Bool} {mode : Mode} {next : Option Char}

theorem boundsFrom_cons {i : Nat} (h : (marking comments mode c cs.head?).takesNext = false) :
    boundsFrom width comments mode i (c :: cs) =
      edge mode (marking comments mode c cs.head?).mode i (i + width c)
        ++ boundsFrom width comments (marking comments mode c cs.head?).mode (i + width c) cs := by
  cases cs with
  | nil => simp [boundsFrom]
  | cons d rest =>
    rw [List.head?_cons] at h
    simp [boundsFrom, h]

theorem boundsFrom_cons_cons {i : Nat} {rest : List Char}
    (h : (marking comments mode c (some d)).takesNext = true) :
    boundsFrom width comments mode i (c :: d :: rest) =
      edge mode (marking comments mode c (some d)).mode i (i + width c + width d)
        ++ boundsFrom width comments (marking comments mode c (some d)).mode
          (i + width c + width d) rest := by
  simp [boundsFrom, h]

theorem marking_comments_of_ne_comment (h : (marking true mode c next).region ≠ .comment) :
    marking true mode c next = marking false mode c next := by
  cases mode with
  | code =>
    unfold marking at h ⊢
    grind
  | literal quote | lineComment | blockComment => rfl

theorem boundsFrom_comments {i : Nat} (h : ∀ m ∈ markFrom true mode cs, m.2 ≠ .comment) :
    boundsFrom width true mode i cs = boundsFrom width false mode i cs := by
  fun_induction boundsFrom width true mode i cs with
  | case1 => rfl
  | case2 mode i c =>
    rw [boundsFrom, marking_comments_of_ne_comment]
    exact h (c, _) (by simp [markFrom])
  | case3 mode i c d rest m hm stop ih =>
    rw [markFrom_cons_cons hm] at h
    have hf : m = marking false mode c (some d) :=
      marking_comments_of_ne_comment (h (c, _) (List.mem_cons_self ..))
    rw [ih fun m hm => h m (List.mem_cons_of_mem _ (List.mem_cons_of_mem _ hm)), boundsFrom,
      ← hf, if_pos hm]
  | case4 mode i c d rest m hm stop ih =>
    rw [markFrom_cons (by simpa using hm)] at h
    have hf : m = marking false mode c (some d) :=
      marking_comments_of_ne_comment (h (c, _) (List.mem_cons_self ..))
    rw [ih fun m hm => h m (List.mem_cons_of_mem _ hm), boundsFrom, ← hf, if_neg hm]

def Unquoted (cs : List Char) : Prop := ∀ c ∈ cs, isQuote c = false

theorem Unquoted.marking {code : List Char} (h : Unquoted code) {c : Char} (hc : c ∈ code)
    (next : Option Char) : marking false .code c next = ⟨.code, .code, false⟩ :=
  marking_code_of_not_quote (h c hc) (by simp)

theorem markFrom_unquoted {code : List Char} (h : Unquoted code) (cs : List Char) :
    markFrom false .code (code ++ cs) =
      code.map (·, Region.code) ++ markFrom false .code cs := by
  induction code with
  | nil => rfl
  | cons c code ih =>
    have hm := h.marking (List.mem_cons_self ..)
    rw [List.cons_append, markFrom_cons (by rw [hm]), hm,
      ih fun d hd => h d (List.mem_cons_of_mem _ hd)]
    rfl

theorem boundsFrom_unquoted {code : List Char} (h : Unquoted code) (i : Nat) (cs : List Char) :
    boundsFrom Char.utf8Size false .code i (code ++ cs) =
      boundsFrom Char.utf8Size false .code (i + Text.bytes code) cs := by
  induction code generalizing i with
  | nil => rfl
  | cons c code ih =>
    have hm := h.marking (List.mem_cons_self ..)
    rw [List.cons_append, boundsFrom_cons (by rw [hm]), hm,
      ih fun d hd => h d (List.mem_cons_of_mem _ hd), Text.bytes_cons, Nat.add_assoc]
    rfl

def LiteralStep.marking (quote : Char) : LiteralStep → Marking
  | .single => ⟨.quoted, .literal quote, false⟩
  | .pair => ⟨.quoted, .literal quote, true⟩
  | .close => ⟨.quoted, .code, false⟩

theorem marking_literal (comments : Bool) {step : LiteralStep}
    (hs : literalStep (quote ≠ '\x60') quote c next = step) :
    marking comments (.literal quote) c next = step.marking quote := by
  subst hs
  rfl

theorem markFrom_literal (h : closing? (quote ≠ '\x60') quote cs = some (inside, after)) :
    markFrom comments (.literal quote) cs =
      (inside ++ [quote]).map (·, Region.quoted) ++ markFrom comments .code after := by
  fun_induction closing? (quote ≠ '\x60') quote cs generalizing inside after with
  | case1 => simp at h
  | case2 c hs =>
    simp only [Option.some.injEq, Prod.mk.injEq] at h
    obtain ⟨rfl, rfl⟩ := h
    obtain rfl := eq_of_literalStep_close hs
    have hm : marking comments (.literal c) c none = ⟨.quoted, .code, false⟩ :=
      marking_literal _ hs
    simp [markFrom, hm]
  | case3 => simp at h
  | case4 c d rest hs =>
    simp only [Option.some.injEq, Prod.mk.injEq] at h
    obtain ⟨rfl, rfl⟩ := h
    have hm : marking comments (.literal quote) c (some d) = ⟨.quoted, .code, false⟩ :=
      marking_literal _ hs
    rw [markFrom_cons (by rw [List.head?_cons, hm]), List.head?_cons, hm,
      eq_of_literalStep_close hs]
    rfl
  | case5 c d rest hs ih =>
    obtain ⟨⟨i, a⟩, hi, he⟩ := Option.map_eq_some_iff.1 h
    simp only [Prod.mk.injEq] at he
    obtain ⟨rfl, rfl⟩ := he
    have hm : marking comments (.literal quote) c (some d) = ⟨.quoted, .literal quote, true⟩ :=
      marking_literal _ hs
    rw [markFrom_cons_cons (by rw [hm]), hm, ih hi]
    rfl
  | case6 c d rest hs ih =>
    obtain ⟨⟨i, a⟩, hi, he⟩ := Option.map_eq_some_iff.1 h
    simp only [Prod.mk.injEq] at he
    obtain ⟨rfl, rfl⟩ := he
    have hm : marking comments (.literal quote) c (some d) = ⟨.quoted, .literal quote, false⟩ :=
      marking_literal _ hs
    rw [markFrom_cons (by rw [List.head?_cons, hm]), List.head?_cons, hm, ih hi]
    rfl

theorem markFrom_quoted (hq : isQuote quote = true)
    (h : closing? (quote ≠ '\x60') quote (inside ++ quote :: after) = some (inside, after)) :
    markFrom comments .code (quote :: (inside ++ quote :: after)) =
      (quote :: (inside ++ [quote])).map (·, Region.quoted) ++ markFrom comments .code after := by
  have hm (next : Option Char) :
      marking comments .code quote next = ⟨.quoted, .literal quote, false⟩ :=
    marking_code_of_quote hq
  rw [markFrom_cons (by rw [hm]), hm, markFrom_literal h]
  rfl

theorem boundsFrom_literal (i : Nat) :
    boundsFrom Char.utf8Size comments (.literal quote) i cs =
      match closing? (quote ≠ '\x60') quote cs with
      | none => []
      | some (inside, after) =>
        (i + Text.bytes (inside ++ [quote])) ::
          boundsFrom Char.utf8Size comments .code (i + Text.bytes (inside ++ [quote])) after := by
  fun_induction closing? (quote ≠ '\x60') quote cs generalizing i with
  | case1 => rfl
  | case2 c hs =>
    obtain rfl := eq_of_literalStep_close hs
    have hm : marking comments (.literal c) c none = ⟨.quoted, .code, false⟩ :=
      marking_literal _ hs
    simp [boundsFrom, hm, edge]
  | case3 c hs =>
    rw [boundsFrom, marking_literal _ rfl]
    cases hstep : literalStep (quote ≠ '\x60') quote c none with
    | close => exact absurd hstep hs
    | single | pair => rfl
  | case4 c d rest hs =>
    have hm : marking comments (.literal quote) c (some d) = ⟨.quoted, .code, false⟩ :=
      marking_literal _ hs
    rw [boundsFrom_cons (by rw [List.head?_cons, hm]), List.head?_cons, hm,
      eq_of_literalStep_close hs]
    simp [edge]
  | case5 c d rest hs ih =>
    have hm : marking comments (.literal quote) c (some d) = ⟨.quoted, .literal quote, true⟩ :=
      marking_literal _ hs
    rw [boundsFrom_cons_cons (by rw [hm]), hm, ih]
    cases closing? (quote ≠ '\x60') quote rest with
    | none => rfl
    | some found => simp [edge, Nat.add_assoc]
  | case6 c d rest hs ih =>
    have hm : marking comments (.literal quote) c (some d) = ⟨.quoted, .literal quote, false⟩ :=
      marking_literal _ hs
    rw [boundsFrom_cons (by rw [List.head?_cons, hm]), List.head?_cons, hm, ih]
    cases closing? (quote ≠ '\x60') quote (d :: rest) with
    | none => rfl
    | some found => simp [edge, Nat.add_assoc]

end SqlTables.Source
