import AuthVault.Files.Path

/-!
# Names of temporary files

A path ends in a name, in front of pieces that are idle (`Names`). Replacing the extension of the name
by one of two parts, such as `bin.tmp`, never gives the same name again: cutting the extension off
once takes away only the second part (`stem_ne`). So the new path is another one (`withExtension_ne`),
which leads through the same folders to another name, if to a name at all (`withExtension_eq`).
-/

namespace AuthVault.Path

variable {p : Path} {name : String} {front : List String}

theorem trimmed_of_not_idle (h : isIdle name = false) :
    trimmed ⟨front ++ [name]⟩ = ⟨front ++ [name]⟩ := by
  rw [trimmed, List.reverse_append, List.reverse_singleton, List.singleton_append,
    List.dropWhile_cons_of_neg (by rw [h]; decide), List.reverse_cons, List.reverse_reverse]

/-- The last piece of a path that is not idle is a name. -/
structure Names (p : Path) (name : String) : Prop where
  last : p.trimmed.pieces.getLast? = some name
  ne_back : name ≠ back

theorem names_of_not_idle (hidle : isIdle name = false) (hback : name ≠ back) :
    Names ⟨front ++ [name]⟩ name := by
  refine ⟨?_, hback⟩
  rw [trimmed_of_not_idle hidle]
  exact List.getLast?_concat

/-! ### Names with another extension -/

theorem isIdle_append {extension : String} (h : 1 < extension.length) (front : String) :
    isIdle (front ++ extension) = false := by
  have hlength : (front ++ extension).length = front.length + extension.length :=
    String.length_append front extension
  have hempty : front ++ extension ≠ "" := fun heq => by
    rw [heq, String.length_empty] at hlength
    omega
  have hdot : front ++ extension ≠ "." := fun heq => by
    rw [heq, show ".".length = 1 from rfl] at hlength
    omega
  simp [isIdle, hempty, hdot]

/-- A name does not consist of its stem and an extension that has two parts. -/
theorem stem_ne {first second : List Char} (hsecond : '.' ∉ second) (hfirst : first ≠ [])
    (h : name.toList = (stem name).toList ++ '.' :: first ++ '.' :: second) : False := by
  have hext : (name.toList.reverse.takeWhile (· ≠ '.')).length = second.length := by
    rw [h, List.reverse_append, List.reverse_cons, List.append_assoc, List.singleton_append,
      List.takeWhile_append_of_pos, List.takeWhile_cons_of_neg (by simp), List.append_nil,
      List.length_reverse]
    intro c hc
    have hne : c ≠ '.' := fun heq => hsecond (heq ▸ List.mem_reverse.1 hc)
    simpa using hne
  have hlength : name.toList.length
      = (stem name).toList.length + first.length + second.length + 2 := by
    have hlength := congrArg List.length h
    simp only [List.length_append, List.length_cons] at hlength
    omega
  have hpositive : 0 < first.length := List.length_pos_iff.2 hfirst
  have hstem : (stem name).toList.length = name.toList.length - second.length - 1
      ∨ stem name = name := by
    unfold stem
    simp only [hext]
    split
    · left
      rw [String.toList_ofList, List.length_take]
      omega
    · exact .inr rfl
  rcases hstem with hstem | hstem
  · omega
  · rw [hstem] at hlength
    omega

/-! ### Paths with another extension -/

theorem withExtension_of_names (h : p.Names name) (extension : String) :
    p.withExtension extension = p.withLast back ∨
      p.withExtension extension = p.withLast (stem name ++ "." ++ extension) := by
  unfold withExtension
  rw [h.last]
  simp only [if_neg h.ne_back]
  split
  · exact .inl rfl
  · exact .inr rfl

/-- Where a path ends in a name, the path with another extension ends in another name of the same
folder, or leads back from there. -/
theorem withExtension_eq (hidle : isIdle name = false) (hback : name ≠ back) (extension : String) :
    withExtension ⟨front ++ [name]⟩ extension = ⟨front ++ [back]⟩ ∨
      withExtension ⟨front ++ [name]⟩ extension = ⟨front ++ [stem name ++ "." ++ extension]⟩ := by
  have hlast : ∀ piece, withLast ⟨front ++ [name]⟩ piece = ⟨front ++ [piece]⟩ := by
    intro piece
    rw [withLast, trimmed_of_not_idle hidle, List.dropLast_concat]
  rw [← hlast back, ← hlast (stem name ++ "." ++ extension)]
  exact withExtension_of_names (names_of_not_idle hidle hback) extension

/-- A path that ends in a name is another one once the extension is replaced, by one that has more
than one part. -/
theorem withExtension_ne {first second : String} (h : p.Names name) (hsecond : '.' ∉ second.toList)
    (hfirst : first ≠ "") : p.withExtension (first ++ "." ++ second) ≠ p := by
  -- Whatever is put in the place of the name is not idle, so it would be the name.
  have hname : ∀ piece, isIdle piece = false → p.withLast piece = p → name = piece := by
    intro piece hidle heq
    have hlast := h.last
    rw [← heq, withLast, trimmed_of_not_idle hidle, List.getLast?_concat] at hlast
    exact (Option.some.inj hlast).symm
  intro heq
  rcases withExtension_of_names h (first ++ "." ++ second) with hback | hstem
  · exact h.ne_back (hname back (by decide) (hback.symm.trans heq))
  · have hidle : isIdle (stem name ++ "." ++ (first ++ "." ++ second)) = false := by
      rw [String.append_assoc]
      refine isIdle_append ?_ _
      have hpositive : first.length ≠ 0 := fun hzero => hfirst (String.length_eq_zero_iff.1 hzero)
      simp only [String.length_append]
      have hdot : ".".length = 1 := rfl
      omega
    have hsame := hname _ hidle (hstem.symm.trans heq)
    have hchars : name.toList
        = (stem name).toList ++ '.' :: first.toList ++ '.' :: second.toList := by
      have hdot : ".".toList = ['.'] := rfl
      have hchars := congrArg String.toList hsame
      simpa only [String.toList_append, hdot, List.append_assoc, List.nil_append,
        List.cons_append] using hchars
    exact stem_ne hsecond (fun hnil => hfirst (String.toList_inj.1 hnil)) hchars

end AuthVault.Path
