import Mathlib.Data.List.Basic

/-! Text in which an escape symbol takes the meaning from the symbol behind it: where it stands
between two symbols, which separators count, and how items of text are joined and parted. -/
namespace AtlasKernel.Lib
variable {α : Type*} [DecidableEq α] {esc sep : α} {escaped : Bool} {text : List α}

/-- Whether the text ends in an open escape, if no separator in it counts. -/
def scan (esc sep : α) : Bool → List α → Option Bool
  | escaped, [] => some escaped
  | true, _ :: text => scan esc sep false text
  | false, c :: text =>
    if c = esc then scan esc sep true text
    else if c = sep then none
    else scan esc sep false text

theorem scan_append (esc sep : α) (escaped : Bool) (text more : List α) :
    scan esc sep escaped (text ++ more) =
      (scan esc sep escaped text).bind fun escaped => scan esc sep escaped more := by
  induction text generalizing escaped with
  | nil => rfl
  | cons c text ih =>
    cases escaped with
    | true => exact ih false
    | false =>
      rw [List.cons_append, scan, scan]
      split
      · exact ih true
      · split
        · rfl
        · exact ih false

/-- No separator counts. -/
def Item (esc sep : α) (text : List α) : Prop := scan esc sep false text ≠ none

/-- And no escape is left open. -/
def Closed (esc sep : α) (text : List α) : Prop := scan esc sep false text = some false

theorem Closed.item (h : Closed esc sep text) : Item esc sep text := by
  rw [Item, h]
  exact Option.some_ne_none false

theorem closed_nil (esc sep : α) : Closed esc sep [] := rfl

theorem Closed.append {more : List α} (h : Closed esc sep text) (hmore : Closed esc sep more) :
    Closed esc sep (text ++ more) := by
  rw [Closed, scan_append, h]
  exact hmore

theorem closed_pair (esc sep c : α) : Closed esc sep [esc, c] := by
  rw [Closed, scan, if_pos rfl]
  rfl

theorem closed_plain {c : α} (hesc : c ≠ esc) (hsep : c ≠ sep) : Closed esc sep [c] := by
  rw [Closed, scan, if_neg hesc, if_neg hsep]
  rfl

/-- What an open escape holds back. -/
def pending (esc : α) (escaped : Bool) : List α := if escaped then [esc] else []

theorem Closed.pending (h : Closed esc sep text) (escaped : Bool) :
    Item esc sep (text ++ Lib.pending esc escaped) := by
  rw [Item, scan_append, h]
  cases escaped with
  | false => exact Option.some_ne_none false
  | true =>
    change scan esc sep false [esc] ≠ none
    rw [scan, if_pos rfl]
    exact Option.some_ne_none true

/-! ## Items -/

/-- Items that can be joined: none but the last ends in an open escape. -/
def Items (esc sep : α) : List (List α) → Prop
  | [] => True
  | item :: items => Item esc sep item ∧ (items ≠ [] → Closed esc sep item) ∧ Items esc sep items

theorem Items.of_closed {items : List (List α)} (h : ∀ item ∈ items, Closed esc sep item) :
    Items esc sep items := by
  induction items with
  | nil => trivial
  | cons item items ih =>
    have hitem := h item List.mem_cons_self
    exact ⟨hitem.item,fun _ => hitem,ih fun i hi => h i (List.mem_cons_of_mem _ hi)⟩

theorem Items.filter {items : List (List α)} (h : Items esc sep items) (keep : List α → Bool) :
    Items esc sep (items.filter keep) := by
  induction items with
  | nil => trivial
  | cons item items ih =>
    obtain ⟨hitem,hclosed,hitems⟩ := h
    rw [List.filter_cons]
    split
    · refine ⟨hitem,fun hne => hclosed ?_,ih hitems⟩
      rintro rfl
      exact hne rfl
    · exact ih hitems

/-! ## Escaping -/

/-- Every symbol that is special goes behind an escape. -/
def escape (esc : α) (special : α → Bool) (text : List α) : List α :=
  text.flatMap fun c => if special c then [esc, c] else [c]

theorem closed_escape {special : α → Bool} (hesc : special esc = true) (hsep : special sep = true)
    (text : List α) : Closed esc sep (escape esc special text) := by
  induction text with
  | nil => exact closed_nil esc sep
  | cons c text ih =>
    rw [escape, List.flatMap_cons]
    refine Closed.append ?_ ih
    split
    case isTrue => exact closed_pair esc sep c
    case isFalse hplain =>
      refine closed_plain ?_ ?_
      · rintro rfl
        exact hplain hesc
      · rintro rfl
        exact hplain hsep

end AtlasKernel.Lib
