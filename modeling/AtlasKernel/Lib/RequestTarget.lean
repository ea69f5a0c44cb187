import AtlasKernel.Lib.Text

/-! The parts of a request target: its path, and the parameters of its query. A fragment does
not belong to either. -/
namespace AtlasKernel.Lib

def withoutFragment (target : List Char) : List Char := target.takeWhile (· ≠ '#')

def targetPath (target : List Char) : List Char := (withoutFragment target).takeWhile (· ≠ '?')

def targetQuery (target : List Char) : List Char :=
  ((withoutFragment target).dropWhile (· ≠ '?')).drop 1

/-- A byte is decoded to the character with its number, which is right for the ASCII texts that
parameters are compared with here. -/
def percentDecode : List Char → List Char
  | '%' :: a :: b :: rest =>
    match hexDigitValue a, hexDigitValue b with
    | some high, some low => Char.ofNat (high * 16 + low) :: percentDecode rest
    | _, _ => '%' :: percentDecode (a :: b :: rest)
  | c :: rest => c :: percentDecode rest
  | [] => []

/-- A name with its value. -/
def queryParam (piece : List Char) : List Char × List Char :=
  match splitOnce '=' piece with
  | some (name, value) => (percentDecode name, percentDecode value)
  | none => (percentDecode piece, [])

def queryParams (query : List Char) : List (List Char × List Char) :=
  ((query.splitOn '&').filter (· ≠ [])).map queryParam

example : queryParams (targetQuery "/a%62?ed=2048&k=%41&&b#c=d".toList) =
    [("ed".toList, "2048".toList), ("k".toList, "A".toList), ("b".toList, [])] := by decide

/-! ## Parts -/

theorem withoutFragment_self {target : List Char} (h : '#' ∉ target) :
    withoutFragment target = target := by
  rw [withoutFragment, List.takeWhile_eq_self_iff]
  intro c hc
  simpa using fun heq : c = '#' => h (heq ▸ hc)

theorem takeWhile_until {c : Char} {front : List Char} (h : c ∉ front) (rest : List Char) :
    (front ++ c :: rest).takeWhile (· ≠ c) = front ∧
      (front ++ c :: rest).dropWhile (· ≠ c) = c :: rest := by
  have hfront : ∀ d ∈ front, decide (d ≠ c) = true := by
    intro d hd
    simpa using fun heq : d = c => h (heq ▸ hd)
  rw [List.takeWhile_append_of_pos hfront, List.dropWhile_append_of_pos hfront]
  simp

/-- Behind the fragment sign nothing counts. -/
theorem withoutFragment_append {front : List Char} (h : '#' ∈ front) (rest : List Char) :
    withoutFragment (front ++ rest) = withoutFragment front := by
  obtain ⟨as,bs,rfl,has⟩ := List.eq_append_cons_of_mem h
  rw [withoutFragment, withoutFragment, List.append_assoc, List.cons_append,
    (takeWhile_until has _).1, (takeWhile_until has _).1]

theorem targetPath_query {path query : List Char} (hpath : '?' ∉ path)
    (h : '#' ∉ path ++ '?' :: query) :
    targetPath (path ++ '?' :: query) = path ∧ targetQuery (path ++ '?' :: query) = query := by
  have hcut := takeWhile_until hpath query
  rw [targetPath, targetQuery, withoutFragment_self h, hcut.1, hcut.2]
  exact ⟨rfl, rfl⟩

theorem targetPath_self {path : List Char} (hpath : '?' ∉ path) (h : '#' ∉ path) :
    targetPath path = path ∧ targetQuery path = [] := by
  have hall : ∀ c ∈ path, decide (c ≠ '?') = true := by
    intro c hc
    simpa using fun heq : c = '?' => hpath (heq ▸ hc)
  rw [targetPath, targetQuery, withoutFragment_self h, List.takeWhile_eq_self_iff.mpr hall,
    List.dropWhile_eq_nil_iff.mpr hall]
  exact ⟨rfl, rfl⟩

/-! ## Parameters -/

theorem percentDecode_self {text : List Char} (h : '%' ∉ text) : percentDecode text = text := by
  induction text with
  | nil => rfl
  | cons c text ih =>
    obtain ⟨hc,htext⟩ := List.ne_and_not_mem_of_not_mem_cons h
    rw [percentDecode.eq_def]
    split
    case h_1 heq =>
      cases heq
      exact absurd rfl hc
    case h_2 heq =>
      cases heq
      rw [ih htext]
    case h_3 heq => cases heq

theorem queryParams_append (as bs : List Char) :
    queryParams (as ++ '&' :: bs) = queryParams as ++ queryParams bs := by
  simp [queryParams, List.splitOn_append_cons_self]

/-- A parameter that needs no decoding. -/
theorem queryParams_single {name value : List Char} (hname : '=' ∉ name)
    (hamp : '&' ∉ name ++ '=' :: value) (hpercent : '%' ∉ name ++ '=' :: value) :
    queryParams (name ++ '=' :: value) = [(name,value)] := by
  have hparts : '%' ∉ name ∧ '%' ∉ value := by simpa using hpercent
  rw [queryParams, List.splitOn_eq_singleton hamp]
  simp [queryParam, splitOnce_first hname, percentDecode_self hparts.1, percentDecode_self hparts.2]

/-- What is put behind a text, and brings no new separator, belongs to its last piece. -/
theorem splitOn_extend (front : List Char) {last : Char} (hlast : last ≠ '&') :
    ∃ pieces piece, ∀ rest : List Char, '&' ∉ rest →
      (front ++ last :: rest).splitOn '&' = pieces ++ [piece ++ last :: rest] := by
  induction front with
  | nil =>
    refine ⟨[], [], fun rest hrest => ?_⟩
    apply List.splitOn_eq_singleton
    simp [hlast.symm, hrest]
  | cons c front ih =>
    obtain ⟨pieces,piece,hsplit⟩ := ih
    by_cases hc : c = '&'
    · refine ⟨[] :: pieces, piece, fun rest hrest => ?_⟩
      rw [List.cons_append, List.splitOn_cons_eq_if_modifyHead, hsplit rest hrest]
      simp [hc]
    · cases pieces with
      | nil =>
        refine ⟨[], c :: piece, fun rest hrest => ?_⟩
        rw [List.cons_append, List.splitOn_cons_eq_if_modifyHead, hsplit rest hrest]
        simp [hc]
      | cons first pieces =>
        refine ⟨(c :: first) :: pieces, piece, fun rest hrest => ?_⟩
        rw [List.cons_append, List.splitOn_cons_eq_if_modifyHead, hsplit rest hrest]
        simp [hc]

/-- So it makes no new parameter. -/
theorem queryParams_extend (front : List Char) {last : Char} (hlast : last ≠ '&') {rest : List Char}
    (hrest : '&' ∉ rest) :
    (queryParams (front ++ last :: rest)).length = (queryParams (front ++ [last])).length := by
  obtain ⟨pieces,piece,hsplit⟩ := splitOn_extend front hlast
  have hnil := hsplit [] List.not_mem_nil
  rw [queryParams, queryParams, hsplit rest hrest, hnil]
  simp

end AtlasKernel.Lib
