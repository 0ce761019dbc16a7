import Mathlib.Tactic.Tauto
import SqlTables.Proofs.Source.Literals

/-! Texts without comments. Such a text, if it leaves off in code, stays as it is when comments are
blanked in a script that holds it. -/

namespace SqlTables.Source

variable {c : Char} {as bs cs after : List Char}

variable {ok : Char × Region → Prop}

/-- Whether a text, before what follows it, is marked by itself with marks of a kind, and leaves
off in code. -/
def Marks (ok : Char × Region → Prop) (cs after : List Char) : Prop :=
  ∃ ms, (∀ m ∈ ms, ok m) ∧
    markFrom true .code (cs ++ after) = ms ++ markFrom true .code after

theorem Marks.nil (after : List Char) : Marks ok [] after := ⟨[], by simp, rfl⟩

theorem Marks.append (ha : Marks ok as (bs ++ cs)) (hb : Marks ok bs cs) :
    Marks ok (as ++ bs) cs := by
  obtain ⟨ms, hms, ha⟩ := ha
  obtain ⟨ns, hns, hb⟩ := hb
  refine ⟨ms ++ ns, ?_, by rw [List.append_assoc, ha, hb, List.append_assoc]⟩
  intro m hm
  rcases List.mem_append.1 hm with hm | hm
  · exact hms m hm
  · exact hns m hm

theorem Marks.cons (hok : ok (c, .code)) (hq : isQuote c = false)
    (ho : ¬OpensComment c (cs ++ after).head?) (h : Marks ok cs after) :
    Marks ok (c :: cs) after := by
  obtain ⟨ms, hms, h⟩ := h
  have hm : marking true .code c (cs ++ after).head? = ⟨.code, .code, false⟩ :=
    marking_code_of_not_quote hq fun _ => ho
  refine ⟨(c, .code) :: ms, List.forall_mem_cons.2 ⟨hok, hms⟩, ?_⟩
  rw [List.cons_append, markFrom_cons (by rw [hm]), hm, h]
  rfl

theorem Marks.mono {ok' : Char × Region → Prop} (h : Marks ok cs after) (hok : ∀ m, ok m → ok' m) :
    Marks ok' cs after := by
  obtain ⟨ms, hms, h⟩ := h
  exact ⟨ms, fun m hm => hok m (hms m hm), h⟩

theorem marks_literal {quote : Char} {inside : List Char} (hok : ∀ c, ok (c, .quoted))
    (hq : isQuote quote = true)
    (h : closing? (quote ≠ '\x60') quote (inside ++ quote :: after) = some (inside, after)) :
    Marks ok (quote :: inside ++ [quote]) after := by
  refine ⟨(quote :: inside ++ [quote]).map (·, .quoted), ?_, ?_⟩
  · intro m hm
    obtain ⟨c, _, rfl⟩ := List.mem_map.1 hm
    exact hok c
  · have hs : quote :: inside ++ [quote] ++ after = quote :: (inside ++ quote :: after) := by simp
    rw [hs, markFrom_quoted hq h]
    rfl

/-- Whether a text holds no comment, and has its last literal closed, before what follows it. -/
def Uncommented (cs after : List Char) : Prop := Marks (fun m => m.2 ≠ .comment) cs after

theorem Uncommented.cons (hq : isQuote c = false) (ho : ¬OpensComment c (cs ++ after).head?)
    (h : Uncommented cs after) : Uncommented (c :: cs) after :=
  Marks.cons (by simp) hq ho h

theorem uncommented_literal {quote : Char} {inside : List Char} (hq : isQuote quote = true)
    (h : closing? (quote ≠ '\x60') quote (inside ++ quote :: after) = some (inside, after)) :
    Uncommented (quote :: inside ++ [quote]) after :=
  marks_literal (by simp) hq h

def isPlain (c : Char) : Bool := !isQuote c && c ≠ '-' && c ≠ '#' && c ≠ '/'

theorem isPlain_of_class {p : Char → Bool}
    (hp : ['\x27', '\x22', '\x60', '-', '#', '/'].all (!p ·) = true) (h : p c = true) :
    isPlain c = true := by
  by_contra hc
  have hmem : c ∈ ['\x27', '\x22', '\x60', '-', '#', '/'] := by
    simp only [isPlain, isQuote, Bool.and_eq_true, Bool.not_eq_true', Bool.or_eq_false_iff,
      decide_eq_true_eq, decide_eq_false_iff_not, ne_eq] at hc
    simp only [List.mem_cons, List.not_mem_nil, or_false]
    tauto
  have hfalse := List.all_eq_true.1 hp c hmem
  simp [h] at hfalse

theorem marks_of_plain (hok : ∀ c ∈ cs, ok (c, .code)) (h : ∀ c ∈ cs, isPlain c = true)
    (after : List Char) : Marks ok cs after := by
  induction cs with
  | nil => exact .nil after
  | cons c cs ih =>
    rw [List.forall_mem_cons] at hok h
    have hc := h.1
    simp only [isPlain, Bool.and_eq_true, Bool.not_eq_true', decide_eq_true_eq] at hc
    refine .cons hok.1 hc.1.1.1 ?_ (ih hok.2 h.2)
    simp [OpensComment, hc]

theorem uncommented_of_plain (h : ∀ c ∈ cs, isPlain c = true) (after : List Char) :
    Uncommented cs after :=
  marks_of_plain (by simp) h after

theorem blank_of_uncommented (h : Uncommented cs []) : blank cs = cs := by
  obtain ⟨ms, hms, h⟩ := h
  rw [List.append_nil, markFrom, List.append_nil] at h
  have hfst := map_fst_markFrom true .code cs
  rw [h] at hfst
  rw [blank, mark, h, ← hfst]
  refine List.map_congr_left fun m hm => ?_
  exact blankChar_of_ne_comment (hms m hm)

theorem markFrom_lineComment (h : '\n' ∉ cs) (ha : ∀ c, after.head? = some c → c = '\n') :
    markFrom true .lineComment (cs ++ after) =
      cs.map (·, .comment) ++ markFrom true .code after := by
  induction cs with
  | nil =>
    cases after with
    | nil => rfl
    | cons c after =>
      obtain rfl := ha c rfl
      have hm (next : Option Char) :
          marking true .lineComment '\n' next = marking true .code '\n' next := rfl
      have hnext (next : Option Char) : (marking true .code '\n' next).takesNext = false := rfl
      rw [List.nil_append, markFrom_cons (by rw [hm, hnext]), hm, markFrom_cons (hnext _)]
      rfl
  | cons c cs ih =>
    rw [List.mem_cons, not_or] at h
    have hm (next : Option Char) :
        marking true .lineComment c next = ⟨.comment, .lineComment, false⟩ := by
      simp [marking, Ne.symm h.1]
    rw [List.cons_append, markFrom_cons (by rw [hm]), hm, ih h.2]
    rfl

theorem blank_lineComment (h : '\n' ∉ cs) (after : List Char) :
    blank ('-' :: '-' :: cs ++ '\n' :: after) =
      List.replicate (cs.length + 2) ' ' ++ '\n' :: blank after := by
  have hm : marking true .code '-' (some '-') = ⟨.comment, .lineComment, true⟩ := rfl
  have hblank : (cs.map (·, Region.comment)).map (fun m => blankChar m.1 m.2) =
      List.replicate cs.length ' ' := by
    rw [List.map_map, ← List.map_const']
    refine List.map_congr_left fun c hc => ?_
    have hne : c ≠ '\n' := fun he => h (he ▸ hc)
    simp [blankChar, hne]
  have hfirst : blankChar '-' .comment = ' ' := rfl
  have hlast : blankChar '\n' .code = '\n' := rfl
  have hcode (next : Option Char) : marking true .code '\n' next = ⟨.code, .code, false⟩ := rfl
  rw [blank, mark, List.cons_append, List.cons_append, markFrom_cons_cons (by rw [hm]), hm,
    markFrom_lineComment h (by simp), markFrom_cons (by rw [hcode]), hcode]
  simp only [List.map_cons, List.map_append, hblank, hfirst, hlast, List.replicate_succ,
    List.cons_append]
  rfl

end SqlTables.Source
