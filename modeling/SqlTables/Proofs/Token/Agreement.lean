import SqlTables.Proofs.Source.Concatenation
import SqlTables.Proofs.Token.Head

/-! Where scripts are cut and where tokens lie. Marking a text and scanning it find the same
literals unless a name in double quotes holds a backslash before a quote; as long as they do,
statements end at semicolon tokens, and comment markers that are left stand inside literals. -/

namespace SqlTables

open Source (Region isQuote closing? Unquoted escapesQuote markFrom mark boundsFrom edge)
open Scan (Scans Gap isGap)
open Text (Position bytes)

namespace Token

/-- Whether a token is a name in double quotes with a backslash that, read as an escape, takes a
quote along. -/
def hidesQuote (t : Token) : Bool :=
  match t.lexeme.toList with
  | '\x22' :: rest => escapesQuote '\x22' rest
  | _ => false

def literalBounds (ts : List Token) : List Nat :=
  (ts.filter (·.kind.isLiteral)).flatMap fun t => [t.start.offset, t.stop]

end Token

theorem hidesQuote_of_lexeme {c : Char} {t : Token} {inside : List Char}
    (h : t.lexeme = String.ofList (c :: inside ++ [c])) :
    t.hidesQuote = (decide (c = '\x22') && escapesQuote c (inside ++ [c])) := by
  rw [Token.hidesQuote, h, String.toList_ofList]
  by_cases hc : c = '\x22'
  · subst hc
    rfl
  · simp [hc]

theorem hidesQuote_of_unquoted {t : Token} (h : Unquoted t.lexeme.toList) :
    t.hidesQuote = false := by
  unfold Token.hidesQuote
  split
  · rename_i rest heq
    exact absurd (h '\x22' (by simp [heq])) (by decide)
  · rfl

theorem closing?_eq_iff_hidesQuote {c : Char} (hc : isQuote c = true) {cs inside after : List Char}
    (h : closing? (c = '\x27') c cs = some (inside, after)) {t : Token}
    (ht : t.lexeme = String.ofList (c :: inside ++ [c])) :
    closing? (c ≠ '\x60') c cs = some (inside, after) ↔ t.hidesQuote = false := by
  rw [hidesQuote_of_lexeme ht]
  rcases Source.isQuote_iff.1 hc with rfl | rfl | rfl
  · exact iff_of_true h rfl
  · exact Source.closing?_true_eq_iff (by decide) h
  · exact iff_of_true h rfl

theorem unquoted_of_gap {gap : List Char} (h : Gap gap) : Unquoted gap :=
  fun c hc => Source.not_quote_of_class (by decide) (h c hc)

theorem boundsFrom_quote_eq_iff {c : Char} (hc : isQuote c = true) {cs inside after : List Char}
    (h : closing? (c = '\x27') c cs = some (inside, after)) (i : Nat) (bounds : List Nat) :
    boundsFrom Char.utf8Size false .code i (c :: cs) =
        i :: (i + bytes (c :: inside ++ [c])) :: bounds ↔
      closing? (c ≠ '\x60') c cs = some (inside, after) ∧
        boundsFrom Char.utf8Size false .code (i + bytes (c :: inside ++ [c])) after = bounds := by
  have hm (next : Option Char) : Source.marking false .code c next =
      ⟨.quoted, .literal c, false⟩ := Source.marking_code_of_quote hc
  rw [Source.boundsFrom_cons (by rw [hm]), hm, Source.boundsFrom_literal, List.cons_append,
    Text.bytes_cons, ← Nat.add_assoc]
  cases hx : closing? (c ≠ '\x60') c cs with
  | none => simp [edge]
  | some found =>
    obtain ⟨inside', after'⟩ := found
    have happ : inside' ++ c :: after' = inside ++ c :: after := by
      rw [← Source.eq_append_of_closing? hx, Source.eq_append_of_closing? h]
    by_cases hsame : inside' = inside
    · subst hsame
      have hafter : after' = after := by simpa using happ
      simp [edge, hafter]
    · -- both readings are of one text, so two literals of the same length are the same
      have hne : bytes inside' ≠ bytes inside := fun hb =>
        hsame (Text.eq_of_append_of_bytes happ hb)
      simp [edge, hsame, hne]

theorem boundsFrom_eq_iff {p p' : Position} {cs rest : List Char} {ts : List Token}
    (h : Scans p cs ts p' rest) (hrest : Gap rest) :
    boundsFrom Char.utf8Size false .code p.offset cs = Token.literalBounds ts ↔
      ∀ t ∈ ts, t.hidesQuote = false := by
  induction h with
  | done p cs =>
    have hcode := Source.boundsFrom_unquoted (unquoted_of_gap hrest) p.offset []
    rw [List.append_nil] at hcode
    rw [hcode]
    exact iff_of_true rfl (by simp)
  | @token p p' gap rest cs c t ts hgap hc ht hts ih =>
    have hcode := Source.boundsFrom_unquoted (unquoted_of_gap hgap) p.offset (c :: rest)
    rw [← Position.offset_advance] at hcode
    rw [hcode, List.forall_mem_cons, ← ih hrest, Position.offset_advance (p.advance gap) t.lexeme]
    -- a literal adds its two bounds to either side, any other token none
    by_cases hquote : isQuote c = true
    · obtain ⟨hlit, inside, hclose, hlexeme⟩ := Scan.head?_of_quote hquote ht
      have hbounds : Token.literalBounds (⟨String.ofList gap, t.kind, String.ofList t.lexeme,
            p.advance gap⟩ :: ts) =
          (p.advance gap).offset :: ((p.advance gap).offset + bytes t.lexeme) ::
            Token.literalBounds ts := by
        rw [← Position.offset_advance (p.advance gap), ← Scan.stop_token p gap t]
        simp [Token.literalBounds, hlit]
      have hhides := closing?_eq_iff_hidesQuote hquote hclose
        (t := ⟨String.ofList gap, t.kind, String.ofList t.lexeme, p.advance gap⟩) (by rw [hlexeme])
      rw [hbounds, ← hhides, hlexeme, boundsFrom_quote_eq_iff hquote hclose]
    · have hplain : isQuote c = false := by simpa using hquote
      obtain ⟨hlit, hlexeme, _⟩ := Scan.head?_of_not_quote hplain ht
      have hbounds : Token.literalBounds (⟨String.ofList gap, t.kind, String.ofList t.lexeme,
          p.advance gap⟩ :: ts) = Token.literalBounds ts := by
        simp [Token.literalBounds, hlit]
      have hhides : Token.hidesQuote ⟨String.ofList gap, t.kind, String.ofList t.lexeme,
          p.advance gap⟩ = false := hidesQuote_of_unquoted (by rwa [String.toList_ofList])
      rw [hbounds, (Scan.eq_append_of_head? ht).1, Source.boundsFrom_unquoted hlexeme,
        and_iff_right hhides]

def offsetsFrom : Nat → List (Char × Region) → List (Nat × Char × Region)
  | _, [] => []
  | i, (c, region) :: ms => (i, c, region) :: offsetsFrom (i + c.utf8Size) ms

theorem offsetsFrom_append (i : Nat) (ms ns : List (Char × Region)) :
    offsetsFrom i (ms ++ ns) =
      offsetsFrom i ms ++ offsetsFrom (i + bytes (ms.map Prod.fst)) ns := by
  induction ms generalizing i with
  | nil => rfl
  | cons m ms ih =>
    rw [List.cons_append, offsetsFrom, offsetsFrom, ih, List.map_cons, Text.bytes_cons,
      Nat.add_assoc]
    rfl

theorem map_fst_marked (cs : List Char) (region : Region) :
    (cs.map (·, region)).map Prod.fst = cs := by
  rw [List.map_map]
  exact List.map_id cs

theorem mem_offsetsFrom_map {i j : Nat} {cs : List Char} {region r : Region} {c : Char}
    (h : (j, c, r) ∈ offsetsFrom i (cs.map (·, region))) :
    r = region ∧ c ∈ cs ∧ i ≤ j ∧ j + c.utf8Size ≤ i + bytes cs := by
  induction cs generalizing i with
  | nil => simp [offsetsFrom] at h
  | cons d cs ih =>
    rw [List.map_cons, offsetsFrom, List.mem_cons] at h
    rw [Text.bytes_cons]
    rcases h with h | h
    · simp only [Prod.mk.injEq] at h
      obtain ⟨rfl, rfl, rfl⟩ := h
      exact ⟨rfl, List.mem_cons_self .., Nat.le_refl _, by omega⟩
    · obtain ⟨hr, hc, hi, hj⟩ := ih h
      exact ⟨hr, List.mem_cons_of_mem _ hc, by omega, by omega⟩

structure Token.Holds (t : Token) (i : Nat) (c : Char) (region : Region) : Prop where
  start_le : t.start.offset ≤ i
  le_stop : i + c.utf8Size ≤ t.stop
  mem : c ∈ t.lexeme.toList
  region_eq : region = if t.kind.isLiteral then .quoted else .code
  lt_stop : t.kind.isLiteral = true → isQuote c = false → i + c.utf8Size < t.stop

theorem markFrom_head {c : Char} {rest : List Char} {t : Scan.Head}
    (ht : Scan.head? c rest = some t)
    {token : Token} (hl : token.lexeme = String.ofList t.lexeme)
    (hn : token.hidesQuote = false) :
    markFrom false .code (c :: rest) =
      t.lexeme.map (·, if t.kind.isLiteral then Region.quoted else Region.code)
        ++ markFrom false .code t.rest := by
  by_cases hquote : isQuote c = true
  · obtain ⟨hlit, inside, hclose, hlexeme⟩ := Scan.head?_of_quote hquote ht
    have hm (next : Option Char) : Source.marking false .code c next =
        ⟨.quoted, .literal c, false⟩ := Source.marking_code_of_quote hquote
    have hclose' := (closing?_eq_iff_hidesQuote hquote hclose (by rw [hl, hlexeme])).2 hn
    rw [Source.markFrom_cons (by rw [hm]), hm, Source.markFrom_literal hclose', hlit, hlexeme]
    rfl
  · obtain ⟨hlit, hlexeme, _⟩ := Scan.head?_of_not_quote (by simpa using hquote) ht
    rw [(Scan.eq_append_of_head? ht).1, Source.markFrom_unquoted hlexeme, hlit]
    rfl

theorem holds_of_mem_offsetsFrom {p p' : Position} {cs rest : List Char} {ts : List Token}
    (h : Scans p cs ts p' rest) (hrest : Gap rest) (hn : ∀ t ∈ ts, t.hidesQuote = false)
    {i : Nat} {c : Char} {region : Region}
    (hm : (i, c, region) ∈ offsetsFrom p.offset (markFrom false .code cs)) (hc : isGap c = false) :
    ∃ t ∈ ts, t.Holds i c region := by
  have hgaps {j : Nat} {gap : List Char} (hgap : Gap gap) :
      (i, c, region) ∉ offsetsFrom j (gap.map (·, Region.code)) := by
    intro hg
    have hc' := hgap c (mem_offsetsFrom_map hg).2.1
    rw [hc] at hc'
    exact absurd hc' (by simp)
  induction h with
  | done p cs =>
    have hcode := Source.markFrom_unquoted (unquoted_of_gap hrest) []
    rw [List.append_nil, Source.markFrom, List.append_nil] at hcode
    rw [hcode] at hm
    exact absurd hm (hgaps hrest)
  | @token p p' gap rest cs d t ts hgap hd ht hts ih =>
    rw [List.forall_mem_cons] at hn
    rw [Source.markFrom_unquoted (unquoted_of_gap hgap), markFrom_head ht rfl hn.1,
      offsetsFrom_append, offsetsFrom_append, map_fst_marked, map_fst_marked,
      ← Position.offset_advance,
      ← Position.offset_advance, List.mem_append, List.mem_append] at hm
    rcases hm with hm | hm | hm
    · exact absurd hm (hgaps hgap)
    · refine ⟨_, List.mem_cons_self .., ?_⟩
      obtain ⟨hr, hmem, hi, hj⟩ := mem_offsetsFrom_map hm
      have hstop := Scan.stop_token p gap t
      rw [Position.offset_advance] at hstop
      refine ⟨hi, hstop ▸ hj, by simpa using hmem, hr, fun hlit hq => ?_⟩
      have hquote : isQuote d = true := by
        by_contra hd
        have hplain := (Scan.head?_of_not_quote (by simpa using hd) ht).1
        rw [hlit] at hplain
        exact absurd hplain (by simp)
      obtain ⟨_, inside, _, hlexeme⟩ := Scan.head?_of_quote hquote ht
      rw [hlexeme, List.map_append, offsetsFrom_append, List.mem_append] at hm
      rw [hstop, hlexeme, Text.bytes_append]
      rcases hm with hm | hm
      · have hend := (mem_offsetsFrom_map hm).2.2.2
        have hpos := d.utf8Size_pos
        simp only [Text.bytes_cons, Text.bytes_nil] at hend ⊢
        omega
      · have hlast := List.mem_singleton.1 (mem_offsetsFrom_map hm).2.1
        rw [hlast, hquote] at hq
        exact absurd hq (by simp)
    · obtain ⟨u, hu, hholds⟩ := ih hrest hn.2 hm
      exact ⟨u, List.mem_cons_of_mem _ hu, hholds⟩

theorem stop_le_of_scans {p p' : Position} {cs rest : List Char} {ts : List Token}
    (h : Scans p cs ts p' rest) {t : Token} (ht : t ∈ ts) : t.stop ≤ p.offset + bytes cs := by
  induction h with
  | done => simp at ht
  | @token p p' gap rest cs c head ts _ _ hhead _ ih =>
    have hsplit := congrArg bytes (Scan.eq_append_of_head? hhead).1
    rw [Text.bytes_append] at hsplit
    rw [Text.bytes_append, hsplit]
    rcases List.mem_cons.1 ht with rfl | ht
    · rw [Scan.stop_token, Position.offset_advance, Position.offset_advance]
      omega
    · have hle := ih ht
      rw [Position.offset_advance, Position.offset_advance] at hle
      omega

theorem semicolon_of_mem_lexeme {p p' : Position} {cs rest : List Char} {ts : List Token}
    (h : Scans p cs ts p' rest) {t : Token} (ht : t ∈ ts) (hl : t.kind.isLiteral = false)
    (hs : ';' ∈ t.lexeme.toList) : t.kind = .semicolon ∧ t.stop = t.start.offset + 1 := by
  induction h with
  | done => simp at ht
  | @token p p' gap rest cs c head ts _ _ hhead _ ih =>
    rcases List.mem_cons.1 ht with rfl | ht
    · have hplain : isQuote c = false := by
        by_contra hc
        have hlit := (Scan.head?_of_quote (by simpa using hc) hhead).1
        rw [hl] at hlit
        exact absurd hlit (by simp)
      rw [String.toList_ofList] at hs
      obtain ⟨hk, hlexeme⟩ := (Scan.head?_of_not_quote hplain hhead).2.2 hs
      refine ⟨hk, ?_⟩
      rw [Scan.stop_token, Position.offset_advance, hlexeme]
      rfl
    · exact ih ht

theorem ne_nil_of_mem_segmentsOf {ms : List (Char × Region)} {s : List Char}
    (h : s ∈ Source.segmentsOf ms) : s ≠ [] := by
  fun_induction Source.segmentsOf ms with
  | case1 => simp at h
  | case2 c region rest _ ih =>
    rcases List.mem_cons.1 h with rfl | h
    · simp
    · exact ih h
  | case3 c region rest _ _ _ => simp_all
  | case4 c region rest _ segment segments hs ih =>
    rcases List.mem_cons.1 h with rfl | h
    · simp
    · exact ih (hs ▸ List.mem_cons_of_mem _ h)

theorem exists_of_segmentsOf {ms : List (Char × Region)} {before after : List (List Char)}
    {s : List Char} (h : Source.segmentsOf ms = before ++ s :: after)
    (hs : s.getLast? = some ';') :
    ∃ xs region ys, ms = xs ++ (';', region) :: ys ∧
      xs.map Prod.fst ++ [';'] = before.flatten ++ s ∧ (region = .code ∨ ys = []) := by
  induction ms generalizing before s with
  | nil => simp [Source.segmentsOf] at h
  | cons m ms ih =>
    obtain ⟨c, region⟩ := m
    rw [Source.segmentsOf] at h
    split_ifs at h with hc
    · -- the first segment ends here
      cases before with
      | nil =>
        simp only [List.nil_append, List.cons.injEq] at h
        obtain ⟨rfl, -⟩ := h
        exact ⟨[], region, ms, by rw [hc.1]; rfl, by simp [hc.1], .inl hc.2.1⟩
      | cons b before =>
        simp only [List.cons_append, List.cons.injEq] at h
        obtain ⟨rfl, h⟩ := h
        obtain ⟨xs, region', ys, rfl, hxs, hr⟩ := ih h hs
        exact ⟨(c, region) :: xs, region', ys, rfl, by simp [hxs], hr⟩
    · cases hms : Source.segmentsOf ms with
      | nil =>
        have hnil : ms = [] := by
          by_contra hne
          exact Source.segmentsOf_ne_nil hne hms
        rw [hms] at h
        cases before with
        | nil =>
          simp only [List.nil_append, List.cons.injEq] at h
          obtain ⟨rfl, -⟩ := h
          rw [List.getLast?_singleton, Option.some.injEq] at hs
          exact ⟨[], region, [], by rw [hs, hnil]; rfl, by simp [hs], .inr rfl⟩
        | cons b before => simp at h
      | cons segment segments =>
        rw [hms] at h
        have hmem : segment ∈ Source.segmentsOf ms := hms ▸ List.mem_cons_self ..
        cases before with
        | nil =>
          simp only [List.nil_append, List.cons.injEq] at h
          obtain ⟨rfl, rfl⟩ := h
          rw [List.getLast?_cons_of_ne_nil (ne_nil_of_mem_segmentsOf hmem)] at hs
          obtain ⟨xs, region', ys, rfl, hxs, hr⟩ := @ih [] _ hms hs
          exact ⟨(c, region) :: xs, region', ys, rfl, by simpa using hxs, hr⟩
        | cons b before =>
          simp only [List.cons_append, List.cons.injEq] at h
          obtain ⟨rfl, rfl⟩ := h
          obtain ⟨xs, region', ys, rfl, hxs, hr⟩ := @ih (segment :: before) _ hms hs
          exact ⟨(c, region) :: xs, region', ys, rfl, by simpa using hxs, hr⟩

def EndsAtSemicolons (text : String) (ts : List Token) : Prop :=
  ∀ before s after, Source.segments text.toList = before ++ s :: after → s.getLast? = some ';' →
    ∃ t ∈ ts, t.kind = .semicolon ∧ t.stop = bytes (before.flatten ++ s)

def commentMarkers : List (List Char) := [['-', '-'], ['#'], ['/', '*']]

def MarkersInLiterals (text : String) (ts : List Token) : Prop :=
  ∀ before marker after, text.toList = before ++ marker ++ after → marker ∈ commentMarkers →
    ∃ t ∈ ts, t.kind.isLiteral = true ∧ t.start.offset ≤ bytes before ∧
      bytes (before ++ marker) ≤ t.stop

variable {text : String} {ts : List Token}

theorem mem_offsetsFrom_of_append {xs ys : List (Char × Region)} {c : Char} {region : Region}
    (i : Nat) :
    (i + bytes (xs.map Prod.fst), c, region) ∈ offsetsFrom i (xs ++ (c, region) :: ys) := by
  rw [offsetsFrom_append, offsetsFrom]
  exact List.mem_append_right _ (List.mem_cons_self ..)

theorem endsAtSemicolons_of_scans {p' : Position} {rest : List Char}
    (h : Scans .start text.toList ts p' rest) (hrest : Gap rest)
    (hn : ∀ t ∈ ts, t.hidesQuote = false) : EndsAtSemicolons text ts := by
  intro before s after hsegments hs
  obtain ⟨xs, region, ys, hms, hxs, hregion⟩ := exists_of_segmentsOf hsegments hs
  have hend : bytes (before.flatten ++ s) = bytes (xs.map Prod.fst) + 1 := by
    rw [← hxs, Text.bytes_append]
    rfl
  have htext : bytes text.toList = bytes (xs.map Prod.fst) + 1 + bytes (ys.map Prod.fst) := by
    rw [← Source.map_fst_markFrom false .code text.toList, ← mark, hms, List.map_append,
      List.map_cons, Text.bytes_append, Text.bytes_cons, Nat.add_assoc]
    rfl
  have hmem := @mem_offsetsFrom_of_append xs ys ';' region 0
  rw [← hms, Nat.zero_add] at hmem
  obtain ⟨t, ht, hholds⟩ := holds_of_mem_offsetsFrom h hrest hn hmem (by decide)
  have hsize : (';').utf8Size = 1 := rfl
  have hle := hholds.le_stop
  have hstart := hholds.start_le
  rw [hsize] at hle
  cases hl : t.kind.isLiteral with
  | false =>
    obtain ⟨hk, hstop⟩ := semicolon_of_mem_lexeme h ht hl hholds.mem
    exact ⟨t, ht, hk, by omega⟩
  | true =>
    -- a literal would go on past the end of the text
    have hlt := hholds.lt_stop hl (by decide)
    have hstop := stop_le_of_scans h ht
    rw [hsize] at hlt
    rw [Position.start, Nat.zero_add, htext] at hstop
    have hquoted := hholds.region_eq
    rw [hl, if_pos rfl] at hquoted
    rcases hregion with hregion | rfl
    · rw [hquoted] at hregion
      exact absurd hregion (by simp)
    · rw [List.map_nil, Text.bytes_nil] at hstop
      omega

theorem head?_marker {marker : List Char} (h : marker ∈ commentMarkers) (after : List Char) :
    ∃ c tail, marker = c :: tail ∧ Source.OpensComment c (tail ++ after).head? ∧
      isQuote c = false ∧ isGap c = false ∧ c.utf8Size = 1 ∧ bytes tail ≤ 1 := by
  simp only [commentMarkers, List.mem_cons, List.not_mem_nil, or_false] at h
  rcases h with rfl | rfl | rfl
  · exact ⟨'-', ['-'], rfl, by simp [Source.OpensComment], by decide⟩
  · exact ⟨'#', [], rfl, by simp [Source.OpensComment], by decide⟩
  · exact ⟨'/', ['*'], rfl, by simp [Source.OpensComment], by decide⟩

theorem markersInLiterals_of_scans {p' : Position} {rest : List Char}
    (h : Scans .start text.toList ts p' rest) (hrest : Gap rest)
    (hn : ∀ t ∈ ts, t.hidesQuote = false)
    (hsame : mark true text.toList = mark false text.toList) : MarkersInLiterals text ts := by
  intro before marker after htext hmarker
  obtain ⟨c, tail, rfl, hopens, hquote, hgap, hsize, htail⟩ := head?_marker hmarker after
  have hfst : (mark true text.toList).map Prod.fst = before ++ c :: (tail ++ after) := by
    rw [mark, Source.map_fst_markFrom, htext]
    simp
  obtain ⟨xs, zs, hms, rfl, hzs⟩ := List.map_eq_append_iff.1 hfst
  obtain ⟨⟨d, region⟩, ys, rfl, rfl, hys⟩ := List.map_eq_cons_iff.1 hzs
  rw [← hys] at hopens
  have hregion : region ≠ .code := by
    rintro rfl
    exact Source.not_opensComment_of_mem_markFrom hms hopens
  have hmem := @mem_offsetsFrom_of_append xs ys d region 0
  rw [← hms, hsame, Nat.zero_add] at hmem
  obtain ⟨t, ht, hholds⟩ := holds_of_mem_offsetsFrom h hrest hn hmem hgap
  have hl : t.kind.isLiteral = true := by
    -- outside of literals no marker is left in code
    by_contra hl
    have hcode := hholds.region_eq
    rw [if_neg hl] at hcode
    exact hregion hcode
  have hlt := hholds.lt_stop hl hquote
  refine ⟨t, ht, hl, hholds.start_le, ?_⟩
  rw [Text.bytes_append, Text.bytes_cons]
  dsimp only at hsize hlt ⊢
  omega

/-- A text whose comments are blanked, if it can be scanned, has its literals where its tokens have
them just when no token hides a quote. Then statements end at semicolons and no comment marker is
left outside the literals. -/
theorem literalBounds_eq_iff {text : String}
    (h : Token.tokenize (Source.withoutComments text) = .ok ts) :
    ((∀ comments, Source.literalBounds comments (Source.withoutComments text) =
        Token.literalBounds ts) ↔ ∀ t ∈ ts, t.hidesQuote = false) ∧
      ((∀ t ∈ ts, t.hidesQuote = false) → EndsAtSemicolons (Source.withoutComments text) ts ∧
        MarkersInLiterals (Source.withoutComments text) ts) := by
  obtain ⟨us, p', rest, hrest, hscans, rfl⟩ := Token.tokenize_eq_ok_iff.1 h
  have hmarks : mark true (Source.withoutComments text).toList =
      mark false (Source.withoutComments text).toList := by
    rw [Source.withoutComments, String.toList_ofList, Source.mark_eq_of_blank]
  have hcomments : ∀ m ∈ markFrom true .code (Source.withoutComments text).toList,
      m.2 ≠ .comment := by
    rw [Source.withoutComments, String.toList_ofList]
    exact fun _ => Source.ne_comment_of_mem_mark_blank
  -- the end of the text is no literal
  have hbounds (eof : Token) (he : eof.kind = .eof) :
      Token.literalBounds (us ++ [eof]) = Token.literalBounds us := by
    simp [Token.literalBounds, he, TokenKind.isLiteral]
  have hhides (eof : Token) (he : eof.lexeme = "") :
      (∀ t ∈ us ++ [eof], t.hidesQuote = false) ↔ ∀ t ∈ us, t.hidesQuote = false := by
    have heof : eof.hidesQuote = false := hidesQuote_of_unquoted (by simp [he, Unquoted])
    simp [or_imp, forall_and, heof]
  rw [hbounds _ rfl, hhides _ rfl]
  constructor
  · rw [← boundsFrom_eq_iff hscans hrest, Bool.forall_bool, Source.literalBounds,
      Source.literalBounds, Source.boundsFrom_comments hcomments, and_self]
    rfl
  · intro hn
    constructor
    · intro before s after hsegments hs
      obtain ⟨t, ht, hend⟩ := endsAtSemicolons_of_scans hscans hrest hn before s after hsegments hs
      exact ⟨t, List.mem_append_left _ ht, hend⟩
    · intro before marker after htext hmarker
      obtain ⟨t, ht, hin⟩ :=
        markersInLiterals_of_scans hscans hrest hn hmarks before marker after htext hmarker
      exact ⟨t, List.mem_append_left _ ht, hin⟩

theorem literalBounds_eq_iff_backslash :
    ∃ ts, Token.tokenize (Source.withoutComments "`a\\` '\\';' ; -- \"") = .ok ts ∧
      (∀ comments, Source.literalBounds comments
        (Source.withoutComments "`a\\` '\\';' ; -- \"") = Token.literalBounds ts) ∧
      EndsAtSemicolons (Source.withoutComments "`a\\` '\\';' ; -- \"") ts ∧
      MarkersInLiterals (Source.withoutComments "`a\\` '\\';' ; -- \"") ts := by
  have hts : Token.tokenize (Source.withoutComments "`a\\` '\\';' ; -- \"") = .ok [
      ⟨"", .quotedName "a\\", "`a\\`", ⟨1, 1, 0⟩⟩,
      ⟨" ", .string "';", "'\\';'", ⟨1, 6, 5⟩⟩,
      ⟨" ", .semicolon, ";", ⟨1, 12, 11⟩⟩,
      ⟨"     ", .eof, "", ⟨1, 18, 17⟩⟩] := by decide +kernel
  obtain ⟨hiff, himp⟩ := literalBounds_eq_iff hts
  exact ⟨_, hts, hiff.2 (by decide), himp (by decide)⟩

theorem not_endsAtSemicolons_and_not_markersInLiterals :
    (∃ ts, Token.tokenize (Source.withoutComments "\"a\\\"\"; \"") = .ok ts ∧
      ¬EndsAtSemicolons (Source.withoutComments "\"a\\\"\"; \"") ts) ∧
    ∃ ts, Token.tokenize (Source.withoutComments "\"a\\\" -- \"b\"") = .ok ts ∧
      ¬MarkersInLiterals (Source.withoutComments "\"a\\\" -- \"b\"") ts := by
  have hhidden : Token.tokenize (Source.withoutComments "\"a\\\"\"; \"") = .ok [
      ⟨"", .quotedName "a\\\"; ", "\"a\\\"\"; \"", ⟨1, 1, 0⟩⟩, ⟨"", .eof, "", ⟨1, 9, 8⟩⟩] := by
    decide +kernel
  have hcut : Token.tokenize (Source.withoutComments "\"a\\\" -- \"b\"") = .ok [
      ⟨"", .quotedName "a\\", "\"a\\\"", ⟨1, 1, 0⟩⟩, ⟨" ", .symbol "-", "-", ⟨1, 6, 5⟩⟩,
      ⟨"", .symbol "-", "-", ⟨1, 7, 6⟩⟩, ⟨" ", .quotedName "b", "\"b\"", ⟨1, 9, 8⟩⟩,
      ⟨"", .eof, "", ⟨1, 12, 11⟩⟩] := by
    decide +kernel
  refine ⟨⟨_, hhidden, ?_⟩, ⟨_, hcut, ?_⟩⟩
  · intro h
    obtain ⟨t, ht, hk, _⟩ := h [] "\"a\\\"\";".toList [" \"".toList] (by decide) (by decide)
    revert hk
    revert t
    decide
  · intro h
    obtain ⟨t, ht, hl, hstart, hstop⟩ :=
      h "\"a\\\" ".toList ['-', '-'] " \"b\"".toList (by decide) (by decide)
    revert hl hstart hstop
    revert t
    decide

end SqlTables
