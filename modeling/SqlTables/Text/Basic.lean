/-! Characters and words of a text. Sets of characters are given by ascending ranges of code points;
white space is Unicode's; keywords compare without regard to the case of ASCII letters, and no other
letter folds; an unsigned numeral is one optional plus sign and digits. -/

namespace SqlTables.Text

abbrev Ranges := List (Nat × Nat)

def Ranges.contains : Ranges → Nat → Bool
  | [], _ => false
  | (lo, hi) :: rest, n => if n < lo then false else n ≤ hi || Ranges.contains rest n

def Ranges.containsChar (rs : Ranges) (c : Char) : Bool := rs.contains c.toNat

def blankRanges : Ranges := [
  (0x9, 0xd), (0x20, 0x20), (0x85, 0x85), (0xa0, 0xa0), (0x1680, 0x1680), (0x2000, 0x200a),
  (0x2028, 0x2029), (0x202f, 0x202f), (0x205f, 0x205f), (0x3000, 0x3000)]

def isBlank (c : Char) : Bool := blankRanges.containsChar c

def trimStart (cs : List Char) : List Char := cs.dropWhile isBlank

def trimEnd : List Char → List Char
  | [] => []
  | c :: rest =>
    match trimEnd rest with
    | [] => if isBlank c then [] else [c]
    | kept => c :: kept

def trim (cs : List Char) : List Char := trimEnd (trimStart cs)

def trimmed (s : String) : String := String.ofList (trim s.toList)

def runsOf (inWord : Char → Bool) : List Char → List (List Char)
  | [] => []
  | c :: rest =>
    if inWord c then
      match rest, runsOf inWord rest with
      | d :: _, run :: runs => if inWord d then (c :: run) :: runs else [c] :: run :: runs
      | _, runs => [c] :: runs
    else runsOf inWord rest

def words (cs : List Char) : List (List Char) := runsOf (!isBlank ·) cs

def foldCase (cs : List Char) : List Char := cs.map Char.toUpper

def sameKeyword (a b : String) : Bool := foldCase a.toList == foldCase b.toList

def digits? (cs : List Char) : Option (List Char × List Char) :=
  match cs.takeWhile Char.isDigit with
  | [] => none
  | d :: ds => some (d :: ds, cs.dropWhile Char.isDigit)

theorem eq_append_of_digits? {cs ds rest : List Char} (h : digits? cs = some (ds, rest)) :
    cs = ds ++ rest ∧ ds ≠ [] := by
  unfold digits? at h
  split at h
  · simp at h
  · rename_i d ds' hd
    simp only [Option.some.injEq, Prod.mk.injEq] at h
    obtain ⟨rfl, rfl⟩ := h
    exact ⟨by rw [← hd, List.takeWhile_append_dropWhile], by simp⟩

def digitsValue (cs : List Char) : Nat := cs.foldl (fun n c => 10 * n + (c.toNat - 48)) 0

def natOfDigits? (cs : List Char) : Option Nat :=
  if !cs.isEmpty && cs.all Char.isDigit then some (digitsValue cs) else none

def unsigned? : List Char → Option Nat
  | '+' :: rest => natOfDigits? rest
  | cs => natOfDigits? cs

def uint32? (cs : List Char) : Option UInt32 :=
  (unsigned? cs).bind fun n => if n < UInt32.size then some (UInt32.ofNat n) else none

def uint64? (cs : List Char) : Option UInt64 :=
  (unsigned? cs).bind fun n => if n < UInt64.size then some (UInt64.ofNat n) else none

end SqlTables.Text
