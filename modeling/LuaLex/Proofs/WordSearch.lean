import LuaLex.Keyword
import LuaLex.Proofs.ByteOrder

/-!
# Searching for a word by halving

The search among rising entries finds exactly the entries. An entry below the word rules out all
entries in front of it, and one above the word rules out all behind it, so the half that is searched
further still has the word if the whole had it.

* `exists_of_search`: what is found stands in the searched range, in whatever order the entries are.
* `search_of_getElem?`: in rising entries, what stands in the searched range is found.
* `search_iff_mem`: both for a whole table, and `rising_table`: that of the reserved words rises.
* `search_eq_isSome_searchBytes`: the search compares bytes.
* `place?_eq_some_iff`: among bytes, a word is found where it stands.
* `keyword_lookup_exact`: so does the lookup of reserved words.
-/

namespace LuaLex.Keyword

/-- Every entry is below those behind it. -/
def Rising (entries : Array String) : Prop := entries.toList.Pairwise (· < ·)

variable {entries : Array String} {word : String} {lo hi : Nat}

theorem Rising.lt (h : Rising entries) {i j : Nat} {v w : String} (hij : i < j)
    (hv : entries[i]? = some v) (hw : entries[j]? = some w) : v < w := by
  obtain ⟨hi, rfl⟩ := Array.getElem?_eq_some_iff.mp hv
  obtain ⟨hj, rfl⟩ := Array.getElem?_eq_some_iff.mp hw
  exact List.pairwise_iff_getElem.mp h i j hi hj hij

theorem Rising.unique (h : Rising entries) {i j : Nat} (hi : entries[i]? = some word)
    (hj : entries[j]? = some word) : i = j := by
  rcases Nat.lt_trichotomy i j with hij | hij | hij
  · exact absurd (h.lt hij hi hj) (String.lt_irrefl word)
  · exact hij
  · exact absurd (h.lt hij hj hi) (String.lt_irrefl word)

theorem exists_of_search (h : search entries word lo hi = true) :
    ∃ i, lo ≤ i ∧ i < hi ∧ entries[i]? = some word := by
  fun_induction search entries word lo hi with
  | case1 => cases h
  | case2 lo hi hlt middle hmiddle => exact ⟨middle, by omega, by omega, hmiddle⟩
  | case3 lo hi hlt middle entry hentry hne hless ih =>
    obtain ⟨i, hlo, hhi, hword⟩ := ih h
    exact ⟨i, by omega, hhi, hword⟩
  | case4 lo hi hlt middle entry hentry hne hless ih =>
    obtain ⟨i, hlo, hhi, hword⟩ := ih h
    exact ⟨i, hlo, by omega, hword⟩
  | case5 => cases h

theorem search_of_getElem? (hrising : Rising entries) {i : Nat} (hlo : lo ≤ i) (hhi : i < hi)
    (hsize : hi ≤ entries.size) (hword : entries[i]? = some word) :
    search entries word lo hi = true := by
  fun_induction search entries word lo hi with
  | case1 lo hi hlt middle hmiddle =>
    have : entries.size ≤ middle := Array.getElem?_eq_none_iff.mp hmiddle
    omega
  | case2 => rfl
  | case3 lo hi hlt middle entry hentry hne hless ih =>
    -- the entry in the middle is too small, and so are those in front of it
    have hbehind : middle < i := by
      rcases Nat.lt_trichotomy i middle with hi | rfl | hi
      · exact absurd (hrising.lt hi hword hentry) (String.lt_asymm hless)
      · exact absurd (Option.some.inj (hentry.symm.trans hword)) hne
      · exact hi
    exact ih hbehind hhi hsize
  | case4 lo hi hlt middle entry hentry hne hless ih =>
    have hbefore : i < middle := by
      rcases Nat.lt_trichotomy i middle with hi | rfl | hi
      · exact hi
      · exact absurd (Option.some.inj (hentry.symm.trans hword)) hne
      · exact absurd (hrising.lt hi hentry hword) hless
    exact ih hlo hbefore (by omega)
  | case5 lo hi hlt => omega

/-- **Searching rising entries is membership.** -/
theorem search_iff_mem (hrising : Rising entries) :
    search entries word 0 entries.size = true ↔ word ∈ entries := by
  constructor
  · intro h
    obtain ⟨i, -, -, hword⟩ := exists_of_search h
    exact Array.mem_of_getElem? hword
  · intro h
    obtain ⟨i, hi, hword⟩ := Array.mem_iff_getElem.mp h
    exact search_of_getElem? hrising (Nat.zero_le i) hi (Nat.le_refl _)
      (Array.getElem?_eq_some_iff.mpr ⟨hi, hword⟩)

/-- The reserved words rise. -/
theorem rising_table : Rising table := by
  unfold Rising
  decide

/-! ## Comparing bytes -/

/-- The search among sequences of bytes, in their own order, with the place where it comes upon the
one that is looked for. -/
def searchBytes (entries : Array (List UInt8)) (bytes : List UInt8) (lo hi : Nat) : Option Nat :=
  if lo < hi then
    let middle := lo + (hi - lo) / 2
    match entries[middle]? with
    | none => none
    | some entry =>
      if entry = bytes then some middle
      else if entry < bytes then searchBytes entries bytes (middle + 1) hi
      else searchBytes entries bytes lo middle
  else none
termination_by hi - lo

/-- The place where the bytes of a word are found among those of all entries. -/
def place? (entries : Array String) (word : String) : Option Nat :=
  searchBytes (entries.map utf8Bytes) (utf8Bytes word) 0 entries.size

theorem getElem?_of_searchBytes {entries : Array (List UInt8)} {bytes : List UInt8} {i : Nat}
    (h : searchBytes entries bytes lo hi = some i) : entries[i]? = some bytes := by
  fun_induction searchBytes entries bytes lo hi with
  | case1 => cases h
  | case2 lo hi hlt middle hmiddle => exact Option.some.inj h ▸ hmiddle
  | case3 lo hi hlt middle entry hentry hne hless ih => exact ih h
  | case4 lo hi hlt middle entry hentry hne hless ih => exact ih h
  | case5 => cases h

/-- **Words are compared by their bytes** at each step of the search. -/
theorem search_eq_isSome_searchBytes :
    search entries word lo hi =
      (searchBytes (entries.map utf8Bytes) (utf8Bytes word) lo hi).isSome := by
  fun_induction search entries word lo hi with
  | case1 lo hi hlt middle hmiddle =>
    rw [searchBytes, if_pos hlt]
    simp [middle, hmiddle]
  | case2 lo hi hlt middle hmiddle =>
    rw [searchBytes, if_pos hlt]
    simp [middle, hmiddle]
  | case3 lo hi hlt middle entry hentry hne hless ih =>
    rw [searchBytes, if_pos hlt]
    simp [middle, hentry, utf8Bytes_inj, hne, utf8Bytes_lt_iff, hless, ih]
  | case4 lo hi hlt middle entry hentry hne hless ih =>
    rw [searchBytes, if_pos hlt]
    simp [middle, hentry, utf8Bytes_inj, hne, utf8Bytes_lt_iff, hless, ih]
  | case5 lo hi hlt =>
    rw [searchBytes, if_neg hlt]
    rfl

theorem getElem?_of_place? {i : Nat} (h : place? entries word = some i) :
    entries[i]? = some word := by
  obtain ⟨entry, hentry, hbytes⟩ :=
    Option.map_eq_some_iff.mp (Array.getElem?_map.symm.trans (getElem?_of_searchBytes h))
  exact utf8Bytes_inj.mp hbytes ▸ hentry

/-- **A word is found exactly where it stands.** -/
theorem place?_eq_some_iff (hrising : Rising entries) {i : Nat} :
    place? entries word = some i ↔ entries[i]? = some word := by
  refine ⟨getElem?_of_place?, fun hi => ?_⟩
  have hfound := (search_iff_mem hrising).mpr (Array.mem_of_getElem? hi)
  rw [search_eq_isSome_searchBytes] at hfound
  obtain ⟨j, hj⟩ := Option.isSome_iff_exists.mp hfound
  -- what was found is the word too, and it stands in one place only
  rw [hrising.unique hi (getElem?_of_place? hj)]
  exact hj

/-- **Looking a word up is membership.** The lookup searches the bytes of the reserved words, in the
order of bytes. It finds a word exactly where the word stands in the table, and so it holds of the
words of the table and of no others. -/
theorem keyword_lookup_exact (word : String) :
    isKeyword word = (place? table word).isSome ∧
      (∀ i, place? table word = some i ↔ table[i]? = some word) ∧
      (isKeyword word = true ↔ word ∈ table) :=
  ⟨search_eq_isSome_searchBytes, fun _ => place?_eq_some_iff rising_table,
    search_iff_mem rising_table⟩

end LuaLex.Keyword
