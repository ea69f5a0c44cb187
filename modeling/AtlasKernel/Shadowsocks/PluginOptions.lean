import AtlasKernel.Lib.Escapes
import AtlasKernel.Lib.Text
import Mathlib.Logic.Function.Basic

/-! The options of a SIP003 plugin, as the program parses them and as it hands them on to a
plugin. Source: `sanitize_sip003_options`, `parse_plugin_options` and what they call in
`shadowsocks/config.rs`. -/
namespace AtlasKernel.Shadowsocks
open AtlasKernel.Lib

/-! ## The grammar -/

/-- The loop of `split_plugin_options`. -/
def splitItems : List Char → List Char → Bool → List (List Char)
  | [], current, escaped => [if escaped then current ++ ['\\'] else current]
  | ch :: rest, current, true => splitItems rest (current ++ ['\\', ch]) false
  | ch :: rest, current, false =>
    if ch = '\\' then splitItems rest current true
    else if ch = ';' then current :: splitItems rest [] false
    else splitItems rest (current ++ [ch]) false

def splitPluginOptions (options : List Char) : List (List Char) := splitItems options [] false

/-- The loop of `split_plugin_option_pair`, with the key, the value, `escaped` and `seen_equal`. -/
def splitPair : List Char → List Char → List Char → Bool → Bool → Option (List Char × List Char)
  | [], key, value, escaped, seenEqual =>
    if seenEqual then some (key, if escaped then value ++ ['\\'] else value) else none
  | ch :: rest, key, value, true, seenEqual =>
    if seenEqual then splitPair rest key (value ++ ['\\', ch]) false seenEqual
    else splitPair rest (key ++ ['\\', ch]) value false seenEqual
  | ch :: rest, key, value, false, seenEqual =>
    if ch = '\\' then splitPair rest key value true seenEqual
    else if ch = '=' ∧ seenEqual = false then splitPair rest key value false true
    else if seenEqual then splitPair rest key (value ++ [ch]) false seenEqual
    else splitPair rest (key ++ [ch]) value false seenEqual

def splitPluginOptionPair (item : List Char) : Option (List Char × List Char) :=
  splitPair item [] [] false false

/-- The loop of `unescape_plugin_option`. -/
def unescapeLoop : List Char → List Char → Bool → List Char
  | [], output, escaped => if escaped then output ++ ['\\'] else output
  | ch :: rest, output, true => unescapeLoop rest (output ++ [ch]) false
  | ch :: rest, output, false =>
    if ch = '\\' then unescapeLoop rest output true else unescapeLoop rest (output ++ [ch]) false

def unescapePluginOption (value : List Char) : List Char := unescapeLoop value [] false

/-- `HashMap<String, String>` -/
abbrev OptionValues := List Char → Option (List Char)

def optionKey (key : List Char) : List Char := toAsciiLowercase (trim (unescapePluginOption key))

def optionValue (value : List Char) : List Char := trim (unescapePluginOption value)

/-- What `parse_plugin_options` does with an item. -/
def insertItem (values : OptionValues) (item : List Char) : OptionValues :=
  match splitPluginOptionPair item with
  | none => values
  | some (key, value) =>
    if optionKey key = [] then values
    else Function.update values (optionKey key) (some (optionValue value))

def parsePluginOptions (options : List Char) : OptionValues :=
  (splitPluginOptions options).foldl insertItem fun _ => none

/-- The keys that are for the launcher of the plugin. -/
def launcherKeys : List (List Char) :=
  ["program".toList, "path".toList, "plugin".toList, "plugin_program".toList,
    "plugin-program".toList, "plugin_path".toList, "plugin-path".toList]

def keepsItem (item : List Char) : Bool :=
  match splitPluginOptionPair item with
  | some (key, _) => decide (optionKey key ∉ launcherKeys)
  | none => true

def sanitizeSip003Options (options : List Char) : List Char :=
  [';'].intercalate ((splitPluginOptions options).filter keepsItem)

example : sanitizeSip003Options "program=a;uid=7;p\\ath=b;x\\;=1".toList = "uid=7;x\\;=1".toList := by
  decide

/-! ## Parting items -/

theorem pending_append (escaped : Bool) (current : List Char) :
    (if escaped then current ++ ['\\'] else current) = current ++ pending '\\' escaped := by
  cases escaped with
  | false => exact (List.append_nil current).symm
  | true => rfl

/-- Through text in which no separator counts, the loop only collects. -/
theorem splitItems_scan {text : List Char} {escaped escaped' : Bool} (current : List Char)
    (h : scan '\\' ';' escaped text = some escaped') (rest : List Char) :
    ∃ current', splitItems (text ++ rest) current escaped = splitItems rest current' escaped' ∧
      current' ++ pending '\\' escaped' = current ++ pending '\\' escaped ++ text := by
  induction text generalizing current escaped with
  | nil =>
    cases h
    exact ⟨current,rfl,(List.append_nil _).symm⟩
  | cons ch text ih =>
    cases escaped with
    | true =>
      obtain ⟨current',hloop,hcollected⟩ := ih (current ++ ['\\', ch]) h
      refine ⟨current',hloop,hcollected.trans ?_⟩
      simp [pending]
    | false =>
      rw [scan] at h
      rw [List.cons_append, splitItems]
      split at h
      case isTrue hescape =>
        obtain ⟨current',hloop,hcollected⟩ := ih current h
        refine ⟨current',by rw [if_pos hescape, hloop],hcollected.trans ?_⟩
        rw [hescape]
        simp [pending]
      case isFalse hescape =>
        split at h
        case isTrue => cases h
        case isFalse hsep =>
          obtain ⟨current',hloop,hcollected⟩ := ih (current ++ [ch]) h
          refine ⟨current',by rw [if_neg hescape, if_neg hsep, hloop],hcollected.trans ?_⟩
          simp [pending]

theorem split_item {item : List Char} (h : Item '\\' ';' item) : splitPluginOptions item = [item] := by
  obtain ⟨escaped,hscan⟩ := Option.ne_none_iff_exists'.mp h
  obtain ⟨current,hloop,hcollected⟩ := splitItems_scan [] hscan []
  rw [List.append_nil] at hloop
  rw [splitPluginOptions, hloop, splitItems, pending_append, hcollected]
  rfl

theorem split_next {item : List Char} (h : Closed '\\' ';' item) (rest : List Char) :
    splitPluginOptions (item ++ ';' :: rest) = item :: splitPluginOptions rest := by
  obtain ⟨current,hloop,hcollected⟩ := splitItems_scan [] h (';' :: rest)
  have hcurrent : current = item := by simpa [pending] using hcollected
  rw [splitPluginOptions, hloop, hcurrent, splitItems, if_neg (by decide), if_pos rfl]
  rfl

/-- Joined items are parted again. -/
theorem split_joined {items : List (List Char)} (h : Items '\\' ';' items) (hne : items ≠ []) :
    splitPluginOptions ([';'].intercalate items) = items := by
  induction items with
  | nil => exact absurd rfl hne
  | cons item items ih =>
    obtain ⟨hitem,hclosed,hitems⟩ := h
    cases items with
    | nil =>
      rw [List.intercalate_singleton]
      exact split_item hitem
    | cons next items =>
      rw [List.intercalate_cons_cons, List.append_assoc, List.singleton_append,
        split_next (hclosed (List.cons_ne_nil _ _)), ih hitems (List.cons_ne_nil _ _)]

/-- What the loop parts can be joined. -/
theorem splitItems_items (text : List Char) {current : List Char} (h : Closed '\\' ';' current)
    (escaped : Bool) : Items '\\' ';' (splitItems text current escaped) := by
  induction text generalizing current escaped with
  | nil =>
    rw [splitItems, pending_append]
    exact ⟨h.pending escaped,fun hne => absurd rfl hne,trivial⟩
  | cons ch text ih =>
    cases escaped with
    | true => exact ih (h.append (closed_pair '\\' ';' ch)) false
    | false =>
      rw [splitItems]
      split
      case isTrue => exact ih h true
      case isFalse hescape =>
        split
        case isTrue => exact ⟨h.item,fun _ => h,ih (closed_nil '\\' ';') false⟩
        case isFalse hsep => exact ih (h.append (closed_plain hescape hsep)) false

theorem split_items (options : List Char) : Items '\\' ';' (splitPluginOptions options) :=
  splitItems_items options (closed_nil '\\' ';') false

/-! ## Without the launcher's keys -/

def withoutLauncher (values : OptionValues) : OptionValues :=
  fun key => if key ∈ launcherKeys then none else values key

theorem withoutLauncher_update_mem {key : List Char} (h : key ∈ launcherKeys) (values : OptionValues)
    (value : List Char) :
    withoutLauncher (Function.update values key (some value)) = withoutLauncher values := by
  funext k
  rw [withoutLauncher, withoutLauncher]
  split
  case isTrue => rfl
  case isFalse hk =>
    refine Function.update_of_ne ?_ _ _
    rintro rfl
    exact hk h

theorem withoutLauncher_update {key : List Char} (h : key ∉ launcherKeys) (values : OptionValues)
    (value : List Char) :
    withoutLauncher (Function.update values key (some value)) =
      Function.update (withoutLauncher values) key (some value) := by
  funext k
  by_cases hk : k = key
  · subst hk
    rw [withoutLauncher, if_neg h, Function.update_self, Function.update_self]
  · rw [withoutLauncher, Function.update_of_ne hk, Function.update_of_ne hk, withoutLauncher]

theorem insertItem_kept {item : List Char} (h : keepsItem item = true) (values : OptionValues) :
    insertItem (withoutLauncher values) item = withoutLauncher (insertItem values item) := by
  rw [keepsItem] at h
  rw [insertItem, insertItem]
  split at h
  case h_1 key value hpair =>
    rw [hpair]
    simp only
    split
    case isTrue => rfl
    case isFalse => rw [withoutLauncher_update (of_decide_eq_true h)]
  case h_2 hpair => rw [hpair]

theorem insertItem_left_out {item : List Char} (h : keepsItem item = false) (values : OptionValues) :
    withoutLauncher (insertItem values item) = withoutLauncher values := by
  rw [keepsItem] at h
  rw [insertItem]
  split at h
  case h_1 key value hpair =>
    rw [hpair]
    simp only
    split
    case isTrue => rfl
    case isFalse => rw [withoutLauncher_update_mem (not_not.mp (of_decide_eq_false h))]
  case h_2 hpair => cases h

theorem foldl_kept (items : List (List Char)) (values : OptionValues) :
    (items.filter keepsItem).foldl insertItem (withoutLauncher values) =
      withoutLauncher (items.foldl insertItem values) := by
  induction items generalizing values with
  | nil => rfl
  | cons item items ih =>
    rw [List.filter_cons, List.foldl_cons]
    split
    case isTrue hkeep =>
      rw [List.foldl_cons, insertItem_kept hkeep]
      exact ih _
    case isFalse hkeep =>
      rw [← insertItem_left_out (Bool.not_eq_true _ ▸ hkeep) values]
      exact ih _

/-- The items of what has been sanitized: those that were kept, or one that is empty. -/
theorem split_sanitized (options : List Char) :
    splitPluginOptions (sanitizeSip003Options options) =
        (splitPluginOptions options).filter keepsItem ∨
      (splitPluginOptions options).filter keepsItem = [] ∧
        splitPluginOptions (sanitizeSip003Options options) = [[]] := by
  by_cases hnone : (splitPluginOptions options).filter keepsItem = []
  · refine .inr ⟨hnone,?_⟩
    rw [sanitizeSip003Options, hnone]
    rfl
  · exact .inl (split_joined ((split_items options).filter keepsItem) hnone)

theorem parse_sanitized (options : List Char) :
    parsePluginOptions (sanitizeSip003Options options) = withoutLauncher (parsePluginOptions options) := by
  have hkept := foldl_kept (splitPluginOptions options) fun _ => none
  have hempty : withoutLauncher (fun _ => none) = fun _ => none := by
    funext key
    exact ite_self none
  rw [hempty] at hkept
  rw [parsePluginOptions, parsePluginOptions, ← hkept]
  obtain hsplit | ⟨hnone,hsplit⟩ := split_sanitized options
  · rw [hsplit]
  · rw [hsplit, hnone]
    rfl

theorem sanitize_sanitized (options : List Char) :
    sanitizeSip003Options (sanitizeSip003Options options) = sanitizeSip003Options options := by
  rw [sanitizeSip003Options]
  obtain hsplit | ⟨hnone,hsplit⟩ := split_sanitized options
  · rw [hsplit, List.filter_filter]
    simp only [Bool.and_self]
    rfl
  · rw [hsplit, sanitizeSip003Options, hnone]
    rfl

/-! ## Printing options -/

/-- What is escaped: the backslash, `;` and `=`. -/
def special (ch : Char) : Bool := decide (ch = '\\' ∨ ch = ';' ∨ ch = '=')

def escapeOption (text : List Char) : List Char := escape '\\' special text

theorem closed_escapeOption {sep : Char} (hsep : special sep = true) (text : List Char) :
    Closed '\\' sep (escapeOption text) := closed_escape (by decide) hsep text

/-- A map from keys to values, in some order. -/
structure OptionMap where
  entries : List (List Char × List Char)
  keys_nodup : (entries.map Prod.fst).Nodup
  keys : ∀ entry ∈ entries, entry.1 ≠ [] ∧ Trimmed entry.1 ∧ toAsciiLowercase entry.1 = entry.1
  values : ∀ entry ∈ entries, Trimmed entry.2

def printEntry (entry : List Char × List Char) : List Char :=
  escapeOption entry.1 ++ '=' :: escapeOption entry.2

def OptionMap.print (map : OptionMap) : List Char := [';'].intercalate (map.entries.map printEntry)

def insertEntry (values : OptionValues) (entry : List Char × List Char) : OptionValues :=
  Function.update values entry.1 (some entry.2)

def OptionMap.lookup (map : OptionMap) : OptionValues := fun key => map.entries.lookup key

/-! ## Reading them back -/

theorem unescapeLoop_escaped (text rest output : List Char) :
    unescapeLoop (escapeOption text ++ rest) output false = unescapeLoop rest (output ++ text) false := by
  induction text generalizing output with
  | nil => rw [List.append_nil]; rfl
  | cons ch text ih =>
    rw [escapeOption, escape, List.flatMap_cons]
    split
    case isTrue =>
      change unescapeLoop (escapeOption text ++ rest) (output ++ [ch]) false = _
      rw [ih, List.append_assoc]
      rfl
    case isFalse hplain =>
      have hch : ch ≠ '\\' := by
        rintro rfl
        exact hplain (by decide)
      rw [List.append_assoc, List.singleton_append, unescapeLoop, if_neg hch]
      change unescapeLoop (escapeOption text ++ rest) (output ++ [ch]) false = _
      rw [ih, List.append_assoc]
      rfl

theorem unescape_escaped (text : List Char) : unescapePluginOption (escapeOption text) = text := by
  have h := unescapeLoop_escaped text [] []
  rw [List.append_nil] at h
  exact h

/-- Before the first `=` that counts, the loop only collects the key. -/
theorem splitPair_key {text : List Char} {escaped escaped' : Bool} (key value : List Char)
    (h : scan '\\' '=' escaped text = some escaped') (rest : List Char) :
    ∃ key', splitPair (text ++ rest) key value escaped false = splitPair rest key' value escaped' false ∧
      key' ++ pending '\\' escaped' = key ++ pending '\\' escaped ++ text := by
  induction text generalizing key escaped with
  | nil =>
    cases h
    exact ⟨key,rfl,(List.append_nil _).symm⟩
  | cons ch text ih =>
    cases escaped with
    | true =>
      obtain ⟨key',hloop,hcollected⟩ := ih (key ++ ['\\', ch]) h
      refine ⟨key',hloop,hcollected.trans ?_⟩
      simp [pending]
    | false =>
      rw [scan] at h
      rw [List.cons_append, splitPair]
      split at h
      case isTrue hescape =>
        obtain ⟨key',hloop,hcollected⟩ := ih key h
        refine ⟨key',by rw [if_pos hescape, hloop],hcollected.trans ?_⟩
        rw [hescape]
        simp [pending]
      case isFalse hescape =>
        split at h
        case isTrue => cases h
        case isFalse hsep =>
          obtain ⟨key',hloop,hcollected⟩ := ih (key ++ [ch]) h
          refine ⟨key',?_,hcollected.trans ?_⟩
          · rw [if_neg hescape, if_neg fun heq => hsep heq.1, if_neg Bool.false_ne_true, hloop]
          · simp [pending]

/-- Behind it, everything belongs to the value. -/
theorem splitPair_value (text key value : List Char) (escaped : Bool) :
    splitPair text key value escaped true = some (key, value ++ pending '\\' escaped ++ text) := by
  induction text generalizing value escaped with
  | nil =>
    rw [splitPair, if_pos rfl, pending_append, List.append_nil]
  | cons ch text ih =>
    cases escaped with
    | true =>
      rw [splitPair, if_pos rfl, ih]
      simp [pending]
    | false =>
      rw [splitPair]
      split
      case isTrue hescape =>
        rw [ih, hescape]
        simp [pending]
      case isFalse =>
        rw [if_neg fun heq => Bool.false_ne_true heq.2.symm, if_pos rfl, ih]
        simp [pending]

theorem splitPluginOptionPair_printed {key : List Char} (h : Closed '\\' '=' key) (value : List Char) :
    splitPluginOptionPair (key ++ '=' :: value) = some (key, value) := by
  obtain ⟨key',hloop,hcollected⟩ := splitPair_key [] [] h ('=' :: value)
  have hkey : key' = key := by simpa [pending] using hcollected
  rw [splitPluginOptionPair, hloop, hkey, splitPair, if_neg (by decide), if_pos ⟨rfl,rfl⟩,
    splitPair_value]
  rfl

theorem insertItem_printed {entry : List Char × List Char}
    (hkey : entry.1 ≠ [] ∧ Trimmed entry.1 ∧ toAsciiLowercase entry.1 = entry.1)
    (hvalue : Trimmed entry.2) (values : OptionValues) :
    insertItem values (printEntry entry) = insertEntry values entry := by
  obtain ⟨hne,htrimmed,hlower⟩ := hkey
  have hread : optionKey (escapeOption entry.1) = entry.1 := by
    rw [optionKey, unescape_escaped, trim_of_trimmed htrimmed, hlower]
  have hread' : optionValue (escapeOption entry.2) = entry.2 := by
    rw [optionValue, unescape_escaped, trim_of_trimmed hvalue]
  rw [insertItem, printEntry, splitPluginOptionPair_printed (closed_escapeOption (by decide) _)]
  simp only [hread, hread', if_neg hne]
  rfl

/-- Inserting entries with different keys gives their map. -/
theorem foldl_insertEntry {entries : List (List Char × List Char)}
    (h : (entries.map Prod.fst).Nodup) (values : OptionValues) (key : List Char) :
    entries.foldl insertEntry values key = (entries.lookup key).or (values key) := by
  induction entries generalizing values with
  | nil => rfl
  | cons entry entries ih =>
    rw [List.map_cons, List.nodup_cons] at h
    rw [List.foldl_cons, ih h.2, insertEntry]
    obtain ⟨first,value⟩ := entry
    by_cases hkey : key = first
    · subst hkey
      have hlookup : entries.lookup key = none := by
        rw [List.lookup_eq_none_iff]
        intro entry hentry
        rw [bne_iff_ne]
        intro heq
        exact h.1 (List.mem_map.mpr ⟨entry,hentry,heq.symm⟩)
      rw [hlookup, Function.update_self, List.lookup_cons_self]
      rfl
    · rw [Function.update_of_ne hkey, List.lookup_cons, beq_eq_false_iff_ne.mpr hkey]

theorem closed_printEntry (entry : List Char × List Char) : Closed '\\' ';' (printEntry entry) := by
  have hvalue := closed_escapeOption (show special ';' = true by decide) entry.2
  have hplain : Closed '\\' ';' ['='] := closed_plain (by decide) (by decide)
  exact (closed_escapeOption (by decide) entry.1).append (hplain.append hvalue)

theorem foldl_printed (map : OptionMap) (values : OptionValues) :
    (map.entries.map printEntry).foldl insertItem values = map.entries.foldl insertEntry values := by
  rw [List.foldl_map]
  refine List.foldl_ext _ _ values fun values entry hentry => ?_
  exact insertItem_printed (map.keys entry hentry) (map.values entry hentry) values

theorem parse_printed (map : OptionMap) : parsePluginOptions map.print = map.lookup := by
  have hparse : parsePluginOptions map.print =
      (map.entries.map printEntry).foldl insertItem fun _ => none := by
    by_cases hempty : map.entries = []
    · rw [parsePluginOptions, OptionMap.print, hempty]
      rfl
    · have hclosed : ∀ item ∈ map.entries.map printEntry, Closed '\\' ';' item := by
        intro item hitem
        obtain ⟨entry,_,rfl⟩ := List.mem_map.mp hitem
        exact closed_printEntry entry
      rw [parsePluginOptions, OptionMap.print,
        split_joined (Items.of_closed hclosed) (List.map_eq_nil_iff.not.mpr hempty)]
  rw [hparse, foldl_printed]
  funext key
  rw [foldl_insertEntry map.keys_nodup, Option.or_none]
  rfl

/-- Printed options are parsed back to the map they were printed from. Options that have been
sanitized are parsed as before, but for the launcher's keys; and to sanitize them again changes
nothing. -/
theorem sip003_options :
    (∀ map : OptionMap, parsePluginOptions map.print = map.lookup) ∧
      ∀ options, parsePluginOptions (sanitizeSip003Options options) =
          withoutLauncher (parsePluginOptions options) ∧
        sanitizeSip003Options (sanitizeSip003Options options) = sanitizeSip003Options options :=
  ⟨parse_printed,fun options => ⟨parse_sanitized options,sanitize_sanitized options⟩⟩

end AtlasKernel.Shadowsocks
