import HashedTree.Proofs.DigestText
import HashedTree.TreeDrawing

/-!
# The line of a node, read from its right end

A line ends in a digest, and all digests are written in the same number of characters. Before it
stand words that tell the kind, and before these the digits of a number back to a blank. What is
left is the name. Only for a link this does not show where its name ends: the name and the target
may contain the arrow that stands between them.
-/
namespace HashedTree.NodeLines
open TreeDrawing HexText DigestText

variable {α : Type}

theorem takeWhile_append_of_boundary {p : α → Bool} {body rest : List α} (inside : ∀ x ∈ body, p x)
    (boundary : ∀ x ∈ rest.head?, ¬p x) : (body ++ rest).takeWhile p = body := by
  rw [List.takeWhile_append_of_pos inside]
  cases rest with
  | nil => rw [List.takeWhile_nil, List.append_nil]
  | cons x rest => rw [List.takeWhile_cons_of_neg (boundary x rfl), List.append_nil]

/-- A list comes apart in one way into elements of one kind and a rest that starts with none. -/
theorem append_inj_of_boundary {p : α → Prop} {body other rest last : List α}
    (inside : ∀ x ∈ body, p x) (boundary : ∀ x ∈ rest.head?, ¬p x) (inside' : ∀ x ∈ other, p x)
    (boundary' : ∀ x ∈ last.head?, ¬p x) (h : body ++ rest = other ++ last) :
    body = other ∧ rest = last := by
  classical
  have hbody := congrArg (List.takeWhile fun x => decide (p x)) h
  rw [takeWhile_append_of_boundary (by simpa using inside) (by simpa using boundary),
    takeWhile_append_of_boundary (by simpa using inside') (by simpa using boundary')] at hbody
  subst hbody
  exact ⟨rfl, List.append_cancel_left h⟩

section Lengths
variable {s s' t t' : String}

theorem append_inj_of_length_left (hlength : s.length = s'.length) (h : s ++ t = s' ++ t') :
    s = s' ∧ t = t' := by
  have hlists := congrArg String.toList h
  rw [String.toList_append, String.toList_append] at hlists
  obtain ⟨hs, ht⟩ := List.append_inj hlists hlength
  exact ⟨String.toList_inj.mp hs, String.toList_inj.mp ht⟩

theorem append_inj_of_length_right (hlength : t.length = t'.length) (h : s ++ t = s' ++ t') :
    s = s' ∧ t = t' := by
  refine append_inj_of_length_left ?_ h
  have hall := congrArg String.length h
  rw [String.length_append, String.length_append] at hall
  omega

end Lengths

/-- A number behind a blank is read back to this blank. -/
theorem append_toString_inj {s s' : String} {m n : Nat}
    (h : s ++ " " ++ toString m = s' ++ " " ++ toString n) : s = s' ∧ m = n := by
  have digits (k : Nat) : ∀ c ∈ (Nat.toDigits 10 k).reverse, c.isDigit = true := fun c hc =>
    Nat.isDigit_of_mem_toDigits (by decide) (by decide) (List.mem_reverse.mp hc)
  have blank (text : String) : ∀ c ∈ (' ' :: text.toList.reverse).head?, ¬c.isDigit = true := by
    rintro c ⟨rfl⟩
    decide
  -- from the right, the digits are what stands before the first blank
  have hreversed : (Nat.toDigits 10 m).reverse ++ ' ' :: s.toList.reverse =
      (Nat.toDigits 10 n).reverse ++ ' ' :: s'.toList.reverse := by
    simpa [Nat.toList_repr] using congrArg (fun text => text.toList.reverse) h
  obtain ⟨hdigits, htext⟩ :=
    append_inj_of_boundary (digits m) (blank s) (digits n) (blank s') hreversed
  have hnumber := congrArg (fun ds => Nat.ofDigitChars 10 ds.reverse 0) hdigits
  simp only [List.reverse_reverse, Nat.ofDigitChars_ten_toDigits] at hnumber
  exact ⟨String.toList_inj.mp (List.reverse_inj.mp (List.cons.inj htext).2), hnumber⟩

/-- What the line of a node has before the words that tell its kind. -/
def opening : Node → String
  | .file name _ size => name ++ " [file," ++ " " ++ toString size.toNat
  | .link name _ target => name ++ " -> " ++ target
  | .directory name _ entries => name ++ " [directory," ++ " " ++ toString entries.length

/-- The words before the digest. -/
def closing : NodeKind → String
  | .file => " bytes] "
  | .link => " [symbolic] "
  | .directory => " entries] "

theorem nodeLine_eq (node : Node) :
    nodeLine node = opening node ++ closing node.kind ++ node.hash.toHex := by
  cases node with
  | file name hash size =>
    have hwords : " [file, " = " [file," ++ " " := rfl
    simp only [nodeLine, opening, closing, Node.kind, Node.hash, hwords, String.append_assoc]
  | link name hash target => rfl
  | directory name hash entries =>
    have hwords : " [directory, " = " [directory," ++ " " := rfl
    simp only [nodeLine, opening, closing, Node.kind, Node.hash, hwords, String.append_assoc]

/-- No kind's words end in those of another. -/
theorem append_closing_inj {s s' : String} {k l : NodeKind} (h : s ++ closing k = s' ++ closing l) :
    s = s' ∧ k = l := by
  have hk : (closing k).toList <:+ (s ++ closing k).toList := by
    rw [String.toList_append]
    exact List.suffix_append ..
  have hl : (closing l).toList <:+ (s ++ closing k).toList := by
    rw [h, String.toList_append]
    exact List.suffix_append ..
  have apart : ∀ k l : NodeKind, (closing k).toList <:+ (closing l).toList → k = l := by
    rintro (_ | _ | _) (_ | _ | _) hsuffix <;> first | rfl | exact absurd hsuffix (by decide)
  have hkind : k = l :=
    (List.suffix_or_suffix_of_suffix hk hl).elim (apart k l) fun hsuffix => (apart l k hsuffix).symm
  subst hkind
  exact ⟨(String.append_left_inj _).mp h, rfl⟩

theorem length_toHex (d : Digest) : d.toHex.length = 66 := by
  rw [Digest.toHex, String.length_ofList, List.length_cons, List.length_cons, length_encode,
    d.length_eq]

theorem toHex_injective : Function.Injective Digest.toHex := by
  intro d e h
  have hread := ofHex_toHex d
  rw [h, ofHex_toHex] at hread
  exact (Except.ok.inj hread).symm

/-- Two nodes that are written as one line. A directory's line has the number of its entries only,
and names and targets may share out one text in different ways. -/
inductive SameLine : Node → Node → Prop where
  | file (name : String) (hash : Digest) (size : UInt64) :
    SameLine (.file name hash size) (.file name hash size)
  | directory (name : String) (hash : Digest) {entries others : List Node}
      (length_eq : entries.length = others.length) :
    SameLine (.directory name hash entries) (.directory name hash others)
  | link (hash : Digest) {name other target last : String}
      (text_eq : name ++ " -> " ++ target = other ++ " -> " ++ last) :
    SameLine (.link name hash target) (.link other hash last)

theorem nodeLine_eq_iff {a b : Node} : nodeLine a = nodeLine b ↔ SameLine a b := by
  constructor
  · intro h
    rw [nodeLine_eq, nodeLine_eq] at h
    obtain ⟨hrest, hhex⟩ := append_inj_of_length_right (by rw [length_toHex, length_toHex]) h
    obtain ⟨hopening, hkind⟩ := append_closing_inj hrest
    have hhash := toHex_injective hhex
    match a, b, hkind with
    | .file .., .file .., _ =>
      obtain rfl : _ = _ := hhash
      obtain ⟨htext, hsize⟩ := append_toString_inj hopening
      obtain rfl := (String.append_left_inj _).mp htext
      obtain rfl := UInt64.toNat_inj.mp hsize
      exact .file ..
    | .directory .., .directory .., _ =>
      obtain rfl : _ = _ := hhash
      obtain ⟨htext, hlength⟩ := append_toString_inj hopening
      obtain rfl := (String.append_left_inj _).mp htext
      exact .directory _ _ hlength
    | .link .., .link .., _ =>
      obtain rfl : _ = _ := hhash
      exact .link _ hopening
  · intro h
    cases h with
    | file name hash size => rfl
    | directory name hash length_eq => rw [nodeLine, nodeLine, length_eq]
    | link hash text_eq => rw [nodeLine, nodeLine, text_eq]

/-- A text without line feeds. -/
def OneLine (text : String) : Prop := '\n' ∉ text.toList

instance (text : String) : Decidable (OneLine text) := inferInstanceAs (Decidable (_ ∉ _))

theorem OneLine.append {s t : String} (hs : OneLine s) (ht : OneLine t) : OneLine (s ++ t) := by
  rw [OneLine, String.toList_append, List.mem_append]
  exact not_or.mpr ⟨hs, ht⟩

theorem oneLine_toString (n : Nat) : OneLine (toString n) := by
  intro hmem
  rw [Nat.toString_eq_repr, Nat.toList_repr] at hmem
  cases Nat.isDigit_of_mem_toDigits (by decide) (by decide) hmem

theorem oneLine_toHex (d : Digest) : OneLine d.toHex := by
  have digits : ∀ bytes : ByteBlocks.Bytes, '\n' ∉ encode bytes := by
    intro bytes
    induction bytes with
    | nil => exact List.not_mem_nil
    | cons b rest ih =>
      have hdigit {n : UInt8} (hn : n < 16) : '\n' ≠ digit n := by
        intro heq
        have hvalue := (value?_digit hn).2
        rw [← heq] at hvalue
        cases hvalue
      rw [encode_cons, List.mem_cons, List.mem_cons]
      exact not_or.mpr ⟨hdigit (high_lt b), not_or.mpr ⟨hdigit (low_lt b), ih⟩⟩
  rw [OneLine, Digest.toHex, String.toList_ofList, List.mem_cons, List.mem_cons]
  exact not_or.mpr ⟨by decide, not_or.mpr ⟨by decide, digits d.bytes⟩⟩

/-- A node takes one line if its own texts do. -/
theorem oneLine_nodeLine {node : Node} (hname : OneLine node.name)
    (htarget : ∀ target ∈ node.target?, OneLine target) : OneLine (nodeLine node) := by
  have hopening : OneLine (opening node) := by
    cases node with
    | file name hash size =>
      exact ((OneLine.append hname (by decide)).append (by decide)).append (oneLine_toString _)
    | link name hash target => exact (OneLine.append hname (by decide)).append (htarget _ rfl)
    | directory name hash entries =>
      exact ((OneLine.append hname (by decide)).append (by decide)).append (oneLine_toString _)
  have hclosing : ∀ kind, OneLine (closing kind) := by
    rintro (_ | _ | _) <;> decide
  rw [nodeLine_eq]
  exact (hopening.append (hclosing _)).append (oneLine_toHex _)

end HashedTree.NodeLines
