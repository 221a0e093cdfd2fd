import Mathlib.Data.List.TakeWhile
import LayerLint.Graph.Resolve
import LayerLint.Proofs.Path.Clean

/-!
# Relative imports

A relative import climbs from the directory of the importing file to a directory that the imported
file is in, and goes down from there. It stands for the file it spells, with the extension or, as
long as no other file takes its place, without.
-/

namespace LayerLint

namespace Path

/-- A segment that names a file or a directory. -/
def IsName (segment : List Char) : Prop :=
  segment ≠ [] ∧ segment ≠ here ∧ segment ≠ up

instance (segment : List Char) : Decidable (IsName segment) :=
  inferInstanceAs (Decidable (_ ∧ _ ∧ _))

/-- A relative path whose segments are all names. -/
def IsPlain (path : String) : Prop :=
  ∀ segment ∈ Text.splitOn '/' path.toList, IsName segment

instance (path : String) : Decidable (IsPlain path) :=
  inferInstanceAs (Decidable (∀ _ ∈ _, _))

/-- The segments of the directory that a path lies in. -/
def dirSegments (path : String) : List (List Char) :=
  (Text.splitOn '/' path.toList).dropLast

/-- What a relative path starts with that climbs a number of times. -/
def climb (climbs : Nat) : List Char :=
  if climbs = 0 then here ++ ['/'] else (List.replicate climbs (up ++ ['/'])).flatten

/-- The relative path that climbs a number of times and then goes down along segments. -/
def relative (climbs : Nat) (segments : List (List Char)) : String :=
  String.ofList (climb climbs ++ Text.joinWith ['/'] segments)

variable {source target : String} {name : List Char} {names place : List (List Char)}

/-! ## Following names -/

theorem follow_name (h : IsName name) : follow false place name = name :: place := by
  simp [follow, h.1, h.2.1, h.2.2]

theorem follow_up_name (h : IsName name) : follow false (name :: place) up = place := by
  have hup : ¬(up = [] ∨ up = here) := by decide
  rw [follow, if_neg hup, if_pos rfl]
  exact if_neg h.2.2

theorem foldl_follow_names (h : ∀ name ∈ names, IsName name) :
    names.foldl (follow false) place = names.reverse ++ place := by
  induction names generalizing place with
  | nil => rfl
  | cons name names ih =>
      obtain ⟨hname, hnames⟩ := List.forall_mem_cons.1 h
      rw [List.foldl_cons, follow_name hname, ih hnames, List.reverse_cons, List.append_assoc]
      rfl

/-- As many climbs as names lead out of them. -/
theorem foldl_follow_up (h : ∀ name ∈ names, IsName name) :
    (List.replicate names.length up).foldl (follow false) (names ++ place) = place := by
  induction names with
  | nil => rfl
  | cons name names ih =>
      obtain ⟨hname, hnames⟩ := List.forall_mem_cons.1 h
      rw [List.length_cons, List.replicate_succ, List.foldl_cons, List.cons_append,
        follow_up_name hname, ih hnames]

/-- Names lead to a normal place. -/
theorem normal_of_names (h : ∀ name ∈ names, IsName name) (hslash : ∀ name ∈ names, '/' ∉ name) :
    Normal false names.reverse := by
  have hnormal : Normal false (names.foldl (follow false) []) := Normal.nil.foldl_follow hslash
  rwa [foldl_follow_names h, List.append_nil] at hnormal

/-! ## Directories -/

theorem toList_parent (path : String) :
    (parent path).toList = Text.joinWith ['/'] (dirSegments path) := by
  rw [parent, String.toList_ofList, dirSegments]
  rcases Text.notMem_or_exists_last '/' path.toList with hnone | ⟨front, last, hpath, hlast⟩
  · have hdrop : path.toList.reverse.dropWhile (· ≠ '/') = [] :=
      List.dropWhile_eq_nil_iff.2 fun _ => Text.ne_of_mem_reverse hnone
    rw [hdrop, Text.splitOn_of_notMem hnone]
    rfl
  · have hdrop : path.toList.reverse.dropWhile (· ≠ '/') = '/' :: front.reverse := by
      rw [hpath, List.reverse_append, List.reverse_cons, List.append_assoc,
        List.dropWhile_append_of_pos fun _ => Text.ne_of_mem_reverse hlast]
      rfl
    rw [hdrop, List.drop_one, List.tail_cons, List.reverse_reverse, hpath,
      Text.splitOn_append_cons, Text.splitOn_of_notMem hlast, List.dropLast_concat,
      Text.joinWith_splitOn]

theorem slashless_of_mem_dirSegments {path : String} (h : name ∈ dirSegments path) : '/' ∉ name :=
  Text.notMem_of_mem_splitOn (List.dropLast_subset _ h)

theorem IsPlain.isName_of_mem_dirSegments (h : IsPlain source) (hmem : name ∈ dirSegments source) :
    IsName name :=
  h name (List.dropLast_subset _ hmem)

theorem IsPlain.normal_dirSegments (h : IsPlain source) :
    Normal false (dirSegments source).reverse :=
  normal_of_names (fun _ => h.isName_of_mem_dirSegments) fun _ => slashless_of_mem_dirSegments

theorem IsPlain.foldl_follow_parent (h : IsPlain source) :
    (Text.splitOn '/' (parent source).toList).foldl (follow false) [] =
      (dirSegments source).reverse := by
  rw [toList_parent]
  by_cases hne : dirSegments source = []
  · rw [hne]
    rfl
  · rw [Text.splitOn_joinWith hne fun _ => slashless_of_mem_dirSegments,
      foldl_follow_names fun _ => h.isName_of_mem_dirSegments, List.append_nil]

/-! ## Relative paths -/

theorem splitOn_ups (climbs : Nat) (rest : List Char) :
    Text.splitOn '/' ((List.replicate climbs (up ++ ['/'])).flatten ++ rest) =
      List.replicate climbs up ++ Text.splitOn '/' rest := by
  induction climbs with
  | zero => rfl
  | succ climbs ih =>
      have hup (rest : List Char) : Text.splitOn '/' (up ++ ['/'] ++ rest) =
          up :: Text.splitOn '/' rest :=
        Text.splitOn_append_cons '/' up rest
      rw [List.replicate_succ, List.flatten_cons, List.append_assoc, hup, ih, List.replicate_succ,
        List.cons_append]

theorem splitOn_climb (climbs : Nat) (rest : List Char) :
    Text.splitOn '/' (climb climbs ++ rest) =
      (if climbs = 0 then [here] else List.replicate climbs up) ++ Text.splitOn '/' rest := by
  unfold climb
  split
  · exact Text.splitOn_append_cons '/' here rest
  · exact splitOn_ups climbs rest

/-- A relative path leads out of the names it climbs from and then down. -/
theorem foldl_follow_relative {beyond rest : List (List Char)}
    (hbeyond : ∀ name ∈ beyond, IsName name) (hrest : ∀ name ∈ rest, IsName name)
    (hslash : ∀ name ∈ rest, '/' ∉ name) (hne : rest ≠ []) :
    (Text.splitOn '/' (relative beyond.length rest).toList).foldl (follow false)
      (beyond.reverse ++ place) = rest.reverse ++ place := by
  rw [relative, String.toList_ofList, splitOn_climb, Text.splitOn_joinWith hne hslash,
    List.foldl_append]
  have hclimb : (if beyond.length = 0 then [here] else List.replicate beyond.length up).foldl
      (follow false) (beyond.reverse ++ place) = place := by
    split
    · rename_i hzero
      rw [List.length_eq_zero_iff.1 hzero]
      rfl
    · rw [← List.length_reverse]
      exact foldl_follow_up fun name hname => hbeyond name (List.mem_reverse.1 hname)
  rw [hclimb, foldl_follow_names hrest]

theorem head?_relative (climbs : Nat) (segments : List (List Char)) :
    (relative climbs segments).toList.head? = some '.' := by
  rw [relative, String.toList_ofList, climb]
  cases climbs <;> rfl

/-- A relative path from the directory of one file down to another leads to the other. -/
theorem joinClean_parent_relative (hsource : IsPlain source) (htarget : IsPlain target)
    {common beyond rest : List (List Char)} (hdirs : dirSegments source = common ++ beyond)
    (hsegments : Text.splitOn '/' target.toList = common ++ rest) (hne : rest ≠ []) :
    joinClean (parent source) (relative beyond.length rest) = target := by
  have hrooted : isRooted (parent source).toList (relative beyond.length rest).toList = false := by
    rw [Bool.eq_false_iff, Ne, isRooted_iff, toList_parent, head?_relative]
    simpa using hsource.normal_dirSegments.head?_body
  have hbeyond : ∀ name ∈ beyond, IsName name := fun name hname =>
    hsource.isName_of_mem_dirSegments (hdirs ▸ List.mem_append_right common hname)
  have hrest : ∀ name ∈ rest, name ∈ Text.splitOn '/' target.toList := fun name hname =>
    hsegments ▸ List.mem_append_right common hname
  have hplace : joined (parent source).toList (relative beyond.length rest).toList =
      (Text.splitOn '/' target.toList).reverse := by
    rw [joined, hrooted, List.foldl_append, hsource.foldl_follow_parent, hdirs, List.reverse_append,
      foldl_follow_relative hbeyond (fun name hname => htarget name (hrest name hname))
        (fun name hname => Text.notMem_of_mem_splitOn (hrest name hname)) hne,
      hsegments, List.reverse_append]
  have hnormal : Normal false (Text.splitOn '/' target.toList).reverse :=
    normal_of_names htarget fun _ => Text.notMem_of_mem_splitOn
  rw [joinClean, joinCleanChars_eq, hrooted, hplace,
    hnormal.render_relative (by simp),
    List.reverse_reverse, Text.joinWith_splitOn, String.ofList_toList]

end Path

/-! ## The files they stand for -/

open LayerLint.Path

variable {known : List String} {raw source target : String} {common beyond rest : List (List Char)}

theorem isBlankText_relative (climbs : Nat) (segments : List (List Char)) :
    Text.isBlankText (relative climbs segments) = false := by
  obtain ⟨cs, hcs⟩ := List.head?_eq_some_iff.1 (head?_relative climbs segments)
  rw [Text.isBlankText, hcs]
  rfl

/-- A relative import that is no known path stands for the first known one of the path it leads to
and that path with the extensions. -/
theorem resolveImport_relative (hsource : IsPlain source) (htarget : IsPlain target)
    (hdirs : dirSegments source = common ++ beyond)
    (hsegments : Text.splitOn '/' target.toList = common ++ rest) (hne : rest ≠ [])
    (hraw : relative beyond.length rest ∉ known) :
    resolveImport known (relative beyond.length rest) source =
      (target :: sourceExtensions.map (target ++ ·)).find? (· ∈ known) := by
  rw [resolveImport, isBlankText_relative, if_neg Bool.false_ne_true, if_neg hraw,
    if_pos (head?_relative _ _), joinClean_parent_relative hsource htarget hdirs hsegments hne]

theorem slashless_of_mem_sourceExtensions :
    ∀ extension ∈ sourceExtensions, '/' ∉ extension.toList := by
  decide

/-- The relative path to a file is the one to the file without its extension, and the extension. -/
theorem exists_relative_stem {stem extension : String} (hextension : '/' ∉ extension.toList)
    (hsegments : Text.splitOn '/' (stem ++ extension).toList = common ++ rest) (hne : rest ≠ []) :
    ∃ short, Text.splitOn '/' stem.toList = common ++ short ∧ short ≠ [] ∧
      ∀ climbs, relative climbs rest = relative climbs short ++ extension := by
  obtain ⟨front, last, hstem, hwhole⟩ := Text.exists_splitOn_append stem.toList hextension
  obtain ⟨inner, final, rfl⟩ : ∃ inner final, rest = inner ++ [final] :=
    ⟨_, _, (List.dropLast_concat_getLast hne).symm⟩
  rw [String.toList_append, hwhole, ← List.append_assoc] at hsegments
  obtain ⟨rfl, hfinal⟩ := List.append_inj' hsegments rfl
  obtain rfl : last ++ extension.toList = final := by simpa using hfinal
  refine ⟨inner ++ [last], by rw [hstem, List.append_assoc], by simp, fun climbs => ?_⟩
  apply String.toList_injective
  simp only [relative, String.toList_append, String.toList_ofList, Text.joinWith_append_last,
    List.append_assoc]

/-- A relative import stands for the known file that it spells: it climbs from the directory of the
source to one on the way to the target, and goes down to the target. It may leave an extension out
unless what is left is a known path itself, or becomes one by an extension that is tried earlier. -/
theorem relative_import_finds_file (known : List String) (source target : String)
    (hsource : IsPlain source) (htarget : IsPlain target) (hknown : target ∈ known)
    (common beyond rest : List (List Char)) (hdirs : dirSegments source = common ++ beyond)
    (hsegments : Text.splitOn '/' target.toList = common ++ rest) (hne : rest ≠ []) :
    (relative beyond.length rest ∉ known →
      resolveImport known (relative beyond.length rest) source = some target) ∧
    ∀ earlier extension later, sourceExtensions = earlier ++ extension :: later →
      ∀ stem, target = stem ++ extension → IsPlain stem →
        ∃ short, relative beyond.length rest = short ++ extension ∧
          (short ∉ known → stem ∉ known → (∀ other ∈ earlier, stem ++ other ∉ known) →
            resolveImport known short source = some target) := by
  constructor
  · intro hraw
    rw [resolveImport_relative hsource htarget hdirs hsegments hne hraw]
    exact List.find?_cons_of_pos (by simpa using hknown)
  · rintro earlier extension later hextensions stem rfl hplain
    have hmem : extension ∈ sourceExtensions := by simp [hextensions]
    obtain ⟨short, hstem, hshort, hrelative⟩ :=
      exists_relative_stem (slashless_of_mem_sourceExtensions extension hmem) hsegments hne
    refine ⟨relative beyond.length short, hrelative _, fun hraw hunknown hothers => ?_⟩
    have hearlier : (earlier.map (stem ++ ·)).find? (· ∈ known) = none := by
      simpa using hothers
    rw [resolveImport_relative hsource hplain hdirs hstem hshort hraw,
      List.find?_cons_of_neg (by simpa using hunknown), hextensions, List.map_append,
      List.find?_append, hearlier, Option.none_or, List.map_cons]
    exact List.find?_cons_of_pos (by simpa using hknown)

/-- An example: files with the same name, with other extensions and in other directories. -/
def namesakes : List String :=
  ["web/src/ui/app.ts", "web/src/util.ts", "web/lib/util.js", "web/lib/util.ts", "lib/util.go"]

theorem relative_import_finds_file_namesake :
    relative 2 ["lib".toList, "util.ts".toList] = "../../lib/util.ts" ∧
    resolveImport namesakes "../../lib/util.ts" "web/src/ui/app.ts" = some "web/lib/util.ts" ∧
    resolveImport namesakes "../../lib/util" "web/src/ui/app.ts" = some "web/lib/util.ts" := by
  have hraw : relative 2 ["lib".toList, "util.ts".toList] = "../../lib/util.ts" := by
    decide +kernel
  obtain ⟨hwhole, hstem⟩ := relative_import_finds_file namesakes "web/src/ui/app.ts"
    "web/lib/util.ts" (by decide +kernel) (by decide +kernel) (by decide +kernel) ["web".toList]
    ["src".toList, "ui".toList] ["lib".toList, "util.ts".toList] (by decide +kernel)
    (by decide +kernel) (by decide)
  obtain ⟨short, hshort, hresolve⟩ := hstem [".go", ".py"] ".ts" _ rfl "web/lib/util"
    (by decide +kernel) (by decide +kernel)
  have hcut : short ++ ".ts" = "../../lib/util" ++ ".ts" :=
    hshort.symm.trans (hraw.trans (by decide +kernel))
  obtain rfl : short = "../../lib/util" := (String.append_left_inj ".ts").1 hcut
  refine ⟨hraw, ?_, hresolve (by decide +kernel) (by decide +kernel) (by decide +kernel)⟩
  exact hraw ▸ hwhole (by decide +kernel)

end LayerLint
