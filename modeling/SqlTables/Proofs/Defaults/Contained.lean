import SqlTables.Proofs.Places
import SqlTables.Proofs.Token.Apostrophes
import SqlTables.Proofs.Token.Terminator
import SqlTables.Proofs.Unplaced

/-! Texts that keep to one item of a list: what is written there is no comment, and its tokens
neither close the list nor go on to another item. -/

namespace SqlTables

open Declaration Lexeme
open Source (Marks isQuote withoutComments)
open Scan (Scans delimiters head?)
open Text (Position)

variable {c : Char} {cs after : List Char} {ts : List Token} {p p' : Position}

namespace Token

def depth (ts : List Token) : Int :=
  ts.countP (·.kind == .leftParen) - ts.countP (·.kind == .rightParen)

theorem depth_append (as bs : List Token) : depth (as ++ bs) = depth as + depth bs := by
  rw [depth, depth, depth, List.countP_append, List.countP_append]
  omega

theorem depth_cons (t : Token) (ts : List Token) : depth (t :: ts) = depth [t] + depth ts :=
  depth_append [t] ts

theorem depth_singleton (t : Token) : depth [t] =
    (if t.kind = .leftParen then 1 else 0) - if t.kind = .rightParen then 1 else 0 := by
  simp only [depth, List.countP_singleton, beq_iff_eq]
  split_ifs <;> rfl

theorem depthAfter_eq {d : Nat} {t : Token} (h : d = 0 → t.kind ≠ .rightParen) :
    (depthAfter d t.kind : Int) = d + depth [t] := by
  have hpos (hr : t.kind = .rightParen) : 0 < d := Nat.pos_of_ne_zero fun h0 => h h0 hr
  rw [depth_singleton]
  unfold depthAfter
  split
  · rename_i h
    simp [h]
  · rename_i h
    have hpos := hpos h
    rw [h, if_neg nofun, if_pos rfl]
    omega
  · rename_i hl hr
    rw [if_neg hl, if_neg hr]
    omega

/-- Whether there are tokens that close every group they open and none besides, and no semicolon or
comma is outside of the groups. -/
structure Contained (ts : List Token) : Prop where
  nonempty : ts ≠ []
  semicolon : ∀ t ∈ ts, t.kind ≠ .semicolon
  nested : ∀ as bs, ts = as ++ bs → 0 ≤ depth as
  balanced : depth ts = 0
  comma : ∀ as t bs, ts = as ++ t :: bs → t.kind = .comma → 0 < depth as

theorem depth_of_isPart (h : ∀ t ∈ ts, t.kind.isPart = true) : depth ts = 0 := by
  have hnone {k : TokenKind} (hk : k.isPart = false) : ts.countP (·.kind == k) = 0 := by
    rw [List.countP_eq_zero]
    intro t ht hkind
    rw [beq_iff_eq] at hkind
    have hpart := h t ht
    rw [hkind, hk] at hpart
    cases hpart
  rw [depth, hnone (k := .leftParen) rfl, hnone (k := .rightParen) rfl]
  rfl

theorem contained_of_isPart (hne : ts ≠ []) (h : ∀ t ∈ ts, t.kind.isPart = true) :
    Contained ts := by
  refine ⟨hne, fun t ht hk => ?_, fun as bs hs => ?_, depth_of_isPart h, fun as t bs hs hk => ?_⟩
  · have hpart := h t ht
    rw [hk] at hpart
    cases hpart
  · have has : depth as = 0 := depth_of_isPart fun t ht => h t (by simp [hs, ht])
    exact Int.le_of_eq has.symm
  · have hpart := h t (by simp [hs])
    rw [hk] at hpart
    cases hpart

theorem items?_append_of_depth {d d' : Nat}
    (hk : ∀ t ∈ ts, t.kind ≠ .eof ∧ t.kind ≠ .semicolon)
    (hn : ∀ as bs, ts = as ++ bs → 0 ≤ d + depth as)
    (hc : ∀ as t bs, ts = as ++ t :: bs → t.kind = .comma → 0 < d + depth as)
    (hd : (d' : Int) = d + depth ts) (rest : List Token) :
    items? d (ts ++ rest) = prepend ts (items? d' rest) := by
  induction ts generalizing d with
  | nil =>
    have hd' : (d' : Int) = d := by simpa [depth] using hd
    rw [Int.ofNat_inj.1 hd', prepend_nil_items?]
    rfl
  | cons t ts ih =>
    have hfirst := hn [t] ts rfl
    have hcomma := hc [] t ts rfl
    have hzero : d = 0 → t.kind ≠ .rightParen ∧ t.kind ≠ .comma := by
      rintro rfl
      refine ⟨fun hr => ?_, fun hr => ?_⟩
      · simp [depth, hr] at hfirst
      · simpa [depth] using hcomma hr
    have hafter := depthAfter_eq fun h0 => (hzero h0).1
    rw [List.forall_mem_cons] at hk
    rw [List.cons_append, items?_cons (by simp [hk.1]) hzero, ih hk.2, ← prepend_append]
    · rfl
    · intro as bs hs
      have hprefix := hn (t :: as) bs (by rw [hs]; rfl)
      rw [depth_cons] at hprefix
      omega
    · intro as u bs hs hu
      have hprefix := hc (t :: as) u bs (by rw [hs]; rfl) hu
      rw [depth_cons] at hprefix
      omega
    · rw [depth_cons] at hd
      omega

theorem Contained.enclosed (h : Contained ts) (he : ∀ t ∈ ts, t.kind ≠ .eof) : Enclosed ts :=
  items?_append_of_depth (fun t ht => ⟨he t ht, h.semicolon t ht⟩)
    (fun as bs hs => by simpa using h.nested as bs hs)
    (fun as t bs hs hk => by simpa using h.comma as t bs hs hk) (by simp [h.balanced])

end Token

/-- Whether a text holds no comment, and its tokens keep to one item of a list. -/
structure Contained (text : String) : Prop where
  uncommented : withoutComments text = text
  tokens : ∃ ts last, Token.tokenize text = .ok (ts ++ [last]) ∧ Token.Contained ts

theorem Contained.enclosed {text : String} (h : Contained text) :
    ∃ ts last, Token.tokenize text = .ok (ts ++ [last]) ∧ Enclosed ts := by
  obtain ⟨ts, last, htokens, hts⟩ := h.tokens
  refine ⟨ts, last, htokens, hts.enclosed fun t ht => ?_⟩
  obtain ⟨before, rest, rfl⟩ := List.append_of_mem ht
  rw [List.append_assoc, List.cons_append] at htokens
  exact Token.ne_eof_of_tokenize htokens (by simp)

theorem contained_of_written {ws : List Lexeme} (hw : Written ws []) (hne : ws ≠ [])
    (h : ∀ w ∈ ws, w.kind.isPart = true) : Contained (String.ofList (textOf ws)) := by
  have hscans := hw.scans .start
  rw [List.append_nil] at hscans
  refine ⟨?_, _, _, Token.tokenize_eq_ok_iff.2
    ⟨_, _, [], gap_nil, (String.toList_ofList (l := textOf ws)).symm ▸ hscans, rfl⟩, ?_⟩
  · rw [withoutComments, String.toList_ofList, Source.blank_of_uncommented hw.uncommented]
  · refine Token.contained_of_isPart ?_ fun t ht => ?_
    · cases ws with
      | nil => exact absurd rfl hne
      | cons w ws => simp
    · obtain ⟨w, hmem, q, rfl⟩ := exists_of_mem_tokensAt ht
      exact h w hmem

def isUnmarked (c : Char) : Bool := !isQuote c && !delimiters.contains c

def Unmarked (cs after : List Char) : Prop :=
  Marks (fun m => m.2 ≠ .comment ∧ isUnmarked m.1 = true) cs after

theorem unmarked_of_class {p : Char → Bool} (hp : delimiters.all (!p ·) = true)
    (hq : ['\x27', '\x22', '\x60', '-', '#', '/'].all (!p ·) = true) (h : ∀ c ∈ cs, p c = true)
    (after : List Char) : Unmarked cs after := by
  refine Source.marks_of_plain (fun c hc => ⟨by simp, ?_⟩)
    (fun c hc => Source.isPlain_of_class hq (h c hc)) after
  have hplain := Source.isPlain_of_class hq (h c hc)
  have hdelimiter : c ∉ delimiters := fun hmem => by
    have hc' := List.all_eq_true.1 hp c hmem
    simp [h c hc] at hc'
  simp_all [isUnmarked, Source.isPlain]

theorem Unmarked.chars (h : Unmarked cs after) : ∀ c ∈ cs, isUnmarked c = true := by
  obtain ⟨ms, hms, hmark⟩ := h
  have hfst := congrArg (List.map Prod.fst) hmark
  rw [List.map_append, Source.map_fst_markFrom, Source.map_fst_markFrom,
    List.append_cancel_right_eq] at hfst
  intro c hc
  rw [hfst] at hc
  obtain ⟨m, hm, rfl⟩ := List.mem_map.1 hc
  exact (hms m hm).2

theorem isPart_of_head? {rest : List Char} {t : Scan.Head} (h : head? c rest = some t)
    (hc : c ∉ delimiters) : t.kind.isPart = true := by
  have hmarks : c ≠ '(' ∧ c ≠ ')' ∧ c ≠ ',' ∧ c ≠ ';' := by
    simp only [delimiters, List.mem_cons, List.not_mem_nil, or_false, not_or] at hc
    tauto
  rw [head?] at h
  split at h
  · obtain ⟨⟨inside, after⟩, -, rfl⟩ := Option.map_eq_some_iff.1 h
    dsimp only
    split <;> rfl
  · split at h
    · cases h
      rfl
    · split_ifs at h
      · cases h
        rfl
      · cases h
        rfl
      · cases h
        change (Scan.punctuation c).isPart = true
        unfold Scan.punctuation
        split <;> simp_all [TokenKind.isPart, TokenKind.isInner]

theorem isPart_of_scans {rest : List Char} (h : Scans p cs ts p' rest)
    (hcs : ∀ c ∈ cs, isUnmarked c = true) : ∀ t ∈ ts, t.kind.isPart = true := by
  induction h with
  | done => simp
  | @token p p' gap tail rest c t ts hg hc ht _ ih =>
    have hmark := hcs c (by simp)
    rw [isUnmarked, Bool.and_eq_true, Bool.not_eq_true', Bool.not_eq_true',
      List.contains_eq_mem, decide_eq_false_iff_not] at hmark
    refine List.forall_mem_cons.2 ⟨isPart_of_head? ht hmark.2, ih fun d hd => hcs d ?_⟩
    rw [(Scan.eq_append_of_head? ht).1]
    simp [hd]

theorem contained_of_unmarked (h : Unmarked cs []) (hne : cs ≠ []) :
    Contained (String.ofList cs) := by
  have hcs := h.chars
  have hmark {c : Char} (hc : c ∈ cs) : isQuote c = false ∧ c ∉ delimiters := by
    have hc' := hcs c hc
    rwa [isUnmarked, Bool.and_eq_true, Bool.not_eq_true', Bool.not_eq_true', List.contains_eq_mem,
      decide_eq_false_iff_not] at hc'
  have hunterminated : (Scan.scanFrom .start cs).unterminated = none := by
    by_contra hsome
    obtain ⟨place, hplace⟩ := Option.ne_none_iff_exists'.1 hsome
    obtain ⟨_, gap, c, rest, -, -, hnone, hscans, -⟩ :=
      Scan.scans_of_unterminated_eq_some hplace
    have hmem : c ∈ cs := hscans.suffix.subset (by simp)
    exact Scan.head?_ne_none (hmark hmem).1 rest hnone
  obtain ⟨p', gap, hgap, hscans, -⟩ := Scan.scans_of_unterminated_eq_none hunterminated
  rw [← String.toList_ofList (l := cs)] at hscans
  refine ⟨?_, _, _, Token.tokenize_eq_ok_iff.2 ⟨_, _, gap, hgap, hscans, rfl⟩, ?_⟩
  · rw [withoutComments, String.toList_ofList,
      Source.blank_of_uncommented (h.mono fun m hm => hm.1)]
  · rw [String.toList_ofList] at hscans ⊢
    refine Token.contained_of_isPart (fun hnil => ?_) (isPart_of_scans hscans hcs)
    rw [hnil] at hscans
    obtain ⟨c, tail, rfl⟩ := List.exists_cons_of_ne_nil hne
    obtain ⟨rfl, -⟩ := hscans.eq_of_nil
    exact (hmark (List.mem_cons_self ..)).2 (Scan.mem_delimiters_of_isGap (hgap c (by simp)))

end SqlTables
