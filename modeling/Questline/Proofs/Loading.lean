import Mathlib.Data.List.Nodup
import Questline.Catalog.Loading

/-!
# What a folder of quest files loads

A folder can enumerate its entries in any order (`FileTree.Reordered`), and some of its files hold
no quest that can be played. Neither shows in the catalog: of the valid quests of one id below the
folder, it has the one of the file whose path is the greatest, compared name by name
(`loads_greatest`).

All that a tree contributes is which quests its files hold under which paths
(`FileTree.HoldsQuest`). As no two files have the same path, the greatest is one file, whatever
order the paths were sorted from.
-/

namespace Questline

/-! ## Names and paths -/

/-- The part of a file name after its last dot is the given one, and something stands before. -/
def HasExtension (name extension : String) : Prop :=
  '.' ∉ extension.toList ∧ ∃ stem, stem ≠ "" ∧ name = stem ++ "." ++ extension

theorem isQuestFileName_iff {name : String} :
    isQuestFileName name = true ↔ HasExtension name "toml" := by
  have hends : name.endsWith ".toml" = true ↔ ".toml".toList <:+ name.toList := by
    rw [String.endsWith_eq_endsWith_toSlice, String.Slice.endsWith_string_iff, String.copy_toSlice]
  simp only [isQuestFileName, Bool.and_eq_true, decide_eq_true_eq, hends]
  constructor
  · rintro ⟨⟨cs, hcs⟩, hmore⟩
    have hname : name = String.ofList cs ++ "." ++ "toml" := by
      rw [← String.toList_inj, ← hcs]
      simp
    refine ⟨by decide, String.ofList cs, fun hnone => hmore ?_, hname⟩
    rw [hname, hnone]
    decide
  · rintro ⟨-, stem, hstem, rfl⟩
    refine ⟨⟨stem.toList, by simp⟩, fun hbare => hstem ?_⟩
    have hlength := congrArg (fun s : String => s.toList.length) hbare
    simp at hlength
    simpa using hlength

/-- A path comes before another: a part of it does where they first differ, or it ends there. -/
def PathBefore (p q : List String) : Prop := List.Lex (· < ·) p q

theorem PathBefore.trans {p q r : List String} (hpq : PathBefore p q) (hqr : PathBefore q r) :
    PathBefore p r := List.lex_trans String.lt_trans hpq hqr

theorem PathBefore.irrefl (p : List String) : ¬ PathBefore p p :=
  List.lex_irrefl String.lt_irrefl p

theorem pathLE_iff {p q : List String} : pathLE p q = true ↔ p = q ∨ PathBefore p q := by
  induction p generalizing q with
  | nil => cases q <;> simp [pathLE, PathBefore]
  | cons a as ih =>
    cases q with
    | nil => simp [pathLE, PathBefore]
    | cons b bs =>
      by_cases hab : a = b
      · subst hab
        rw [pathLE, if_pos rfl, ih, PathBefore, PathBefore, List.cons_lex_cons_iff]
        simp
      · rw [pathLE, if_neg hab, decide_eq_true_eq, PathBefore, List.cons_lex_cons_iff]
        simp [hab]

theorem pathLE_total (p q : List String) : (pathLE p q || pathLE q p) = true := by
  induction p generalizing q with
  | nil => rfl
  | cons a as ih =>
    cases q with
    | nil => rfl
    | cons b bs =>
      by_cases hab : a = b
      · subst hab
        simpa [pathLE] using ih bs
      · simp only [pathLE, if_neg hab, if_neg (Ne.symm hab), Bool.or_eq_true, decide_eq_true_eq]
        by_cases hlt : a < b
        · exact .inl hlt
        · exact .inr (Dict.lt_of_not_lt_of_ne hlt hab)

theorem pathLE_trans (p q r : List String) (hpq : pathLE p q = true) (hqr : pathLE q r = true) :
    pathLE p r = true := by
  rw [pathLE_iff] at hpq hqr ⊢
  rcases hpq with rfl | hpq
  · exact hqr
  · rcases hqr with rfl | hqr
    · exact .inr hpq
    · exact .inr (hpq.trans hqr)

theorem eq_of_pathLE {p q : List String} (hpq : pathLE p q = true) (hqp : pathLE q p = true) :
    p = q := by
  rw [pathLE_iff] at hpq hqp
  rcases hpq with rfl | hpq
  · rfl
  · rcases hqp with rfl | hqp
    · rfl
    · exact absurd (hpq.trans hqp) (PathBefore.irrefl p)

/-! ## Files below a folder -/

namespace FileTree

/-- A file lies in a tree under the names that lead to it. -/
inductive HasFile : FileTree → List String → ByteArray → Prop
  | here (content : ByteArray) : HasFile (.file content) [] content
  | inside {name : String} {t : FileTree} {es : List (String × FileTree)} {path : List String}
      {content : ByteArray} (hentry : (name, t) ∈ es) (h : HasFile t path content) :
      HasFile (.folder es) (name :: path) content

/-- No folder of the tree has two entries of one name. -/
inductive Distinct : FileTree → Prop
  | file (content : ByteArray) : Distinct (.file content)
  | folder {es : List (String × FileTree)} (hnames : (es.map (·.1)).Nodup)
      (hentries : ∀ e ∈ es, Distinct e.2) : Distinct (.folder es)

mutual

/-- The same tree, its folders enumerating their entries in other orders. -/
inductive Reordered : FileTree → FileTree → Prop
  | file (content : ByteArray) : Reordered (.file content) (.file content)
  | folder {es fs : List (String × FileTree)} (h : ReorderedAmong es fs) :
      Reordered (.folder es) (.folder fs)

inductive ReorderedAmong : List (String × FileTree) → List (String × FileTree) → Prop
  | nil : ReorderedAmong [] []
  | cons (name : String) {t u : FileTree} {es fs : List (String × FileTree)}
      (h : Reordered t u) (hrest : ReorderedAmong es fs) :
      ReorderedAmong ((name, t) :: es) ((name, u) :: fs)
  | swap (e f : String × FileTree) (es : List (String × FileTree)) :
      ReorderedAmong (e :: f :: es) (f :: e :: es)
  | trans {es fs gs : List (String × FileTree)} (h : ReorderedAmong es fs)
      (hlater : ReorderedAmong fs gs) : ReorderedAmong es gs

end

/-- A quest file of the tree holds a valid quest. -/
def HoldsQuest (t : FileTree) (path : List String) (q : Quest) : Prop :=
  ∃ name content text, path.getLast? = some name ∧ HasExtension name "toml"
    ∧ t.HasFile path content ∧ String.fromUTF8? content = some text
    ∧ Quest.ofText? text = some q ∧ q.defect? = none

theorem hasFile_file {content other : ByteArray} {path : List String} :
    (file content).HasFile path other ↔ path = [] ∧ other = content := by
  constructor
  · rintro ⟨⟩
    exact ⟨rfl, rfl⟩
  · rintro ⟨rfl, rfl⟩
    exact .here _

theorem hasFile_folder {es : List (String × FileTree)} {path : List String}
    {content : ByteArray} : (folder es).HasFile path content
      ↔ ∃ name t rest, (name, t) ∈ es ∧ path = name :: rest ∧ t.HasFile rest content := by
  constructor
  · rintro ⟨⟩
    rename_i hentry h
    exact ⟨_, _, _, hentry, rfl, h⟩
  · rintro ⟨name, t, rest, hentry, rfl, h⟩
    exact .inside hentry h

/-! ### In any order -/

mutual

theorem Reordered.symm {t u : FileTree} : Reordered t u → Reordered u t
  | .file content => .file content
  | .folder h => .folder h.symm

theorem ReorderedAmong.symm {es fs : List (String × FileTree)} :
    ReorderedAmong es fs → ReorderedAmong fs es
  | .nil => .nil
  | .cons name h hrest => .cons name h.symm hrest.symm
  | .swap e f es => .swap f e es
  | .trans h hlater => .trans hlater.symm h.symm

end

mutual

theorem Reordered.hasFile {t u : FileTree} {path : List String} {content : ByteArray} :
    Reordered t u → t.HasFile path content → u.HasFile path content
  | .file _, hfile => hfile
  | .folder h, hfile => h.hasFile hfile

theorem ReorderedAmong.hasFile {es fs : List (String × FileTree)} {path : List String}
    {content : ByteArray} :
    ReorderedAmong es fs → (folder es).HasFile path content → (folder fs).HasFile path content
  | .nil, hfile => hfile
  | .cons name h hrest, hfile => by
    obtain ⟨k, t, rest, hentry, rfl, hinner⟩ := hasFile_folder.mp hfile
    rcases List.mem_cons.mp hentry with heq | hlater
    · cases heq
      exact .inside List.mem_cons_self (h.hasFile hinner)
    · obtain ⟨k', t', rest', hentry', hpath, hinner'⟩ :=
        hasFile_folder.mp (hrest.hasFile (.inside hlater hinner))
      rw [hpath]
      exact .inside (List.mem_cons_of_mem _ hentry') hinner'
  | .swap e f es, hfile => by
    obtain ⟨k, t, rest, hentry, rfl, hinner⟩ := hasFile_folder.mp hfile
    exact .inside ((List.Perm.swap f e es).mem_iff.mp hentry) hinner
  | .trans h hlater, hfile => hlater.hasFile (h.hasFile hfile)

end

theorem Reordered.hasFile_iff {t u : FileTree} (h : Reordered t u) {path : List String}
    {content : ByteArray} : u.HasFile path content ↔ t.HasFile path content :=
  ⟨h.symm.hasFile, h.hasFile⟩

theorem Reordered.holdsQuest_iff {t u : FileTree} (h : Reordered t u) (path : List String)
    (q : Quest) : u.HoldsQuest path q ↔ t.HoldsQuest path q := by
  simp only [HoldsQuest, h.hasFile_iff]

theorem ReorderedAmong.names {es fs : List (String × FileTree)} :
    ReorderedAmong es fs → (es.map (·.1)).Perm (fs.map (·.1))
  | .nil => .nil
  | .cons name _ hrest => hrest.names.cons name
  | .swap _ _ _ => .swap _ _ _
  | .trans h hlater => h.names.trans hlater.names

mutual

theorem Reordered.distinct {t u : FileTree} : Reordered t u → t.Distinct → u.Distinct
  | .file _, ht => ht
  | .folder h, .folder hnames hentries =>
    .folder (h.names.nodup_iff.mp hnames) (h.distinct hentries)

theorem ReorderedAmong.distinct {es fs : List (String × FileTree)} :
    ReorderedAmong es fs → (∀ e ∈ es, e.2.Distinct) → ∀ f ∈ fs, f.2.Distinct
  | .nil, hentries => hentries
  | .cons _ h hrest, hentries => by
    obtain ⟨hfirst, hothers⟩ := List.forall_mem_cons.mp hentries
    exact List.forall_mem_cons.mpr ⟨h.distinct hfirst, hrest.distinct hothers⟩
  | .swap e f es, hentries => fun g hg => hentries g ((List.Perm.swap f e es).mem_iff.mpr hg)
  | .trans h hlater, hentries => hlater.distinct (h.distinct hentries)

end

/-! ### The quest files -/

mutual

theorem mem_questFiles (path p : List String) (content : ByteArray) : ∀ t : FileTree,
    (p, content) ∈ t.questFiles path
      ↔ p.getLast?.any isQuestFileName = true ∧ ∃ rest, p = path ++ rest ∧ t.HasFile rest content
  | .file other => by
    simp only [questFiles, hasFile_file]
    split
    · rename_i hname
      simp only [List.mem_singleton, Prod.mk.injEq]
      constructor
      · rintro ⟨rfl, rfl⟩
        exact ⟨hname, [], by simp⟩
      · rintro ⟨-, rest, rfl, rfl, rfl⟩
        simp
    · rename_i hname
      simp only [List.not_mem_nil, false_iff]
      rintro ⟨hlast, rest, rfl, rfl, -⟩
      exact hname (by simpa using hlast)
  | .folder es => by
    rw [questFiles, mem_questFilesAmong path p content es]

theorem mem_questFilesAmong (path p : List String) (content : ByteArray) :
    ∀ es : List (String × FileTree), (p, content) ∈ questFilesAmong path es
      ↔ p.getLast?.any isQuestFileName = true
        ∧ ∃ rest, p = path ++ rest ∧ (folder es).HasFile rest content
  | [] => by simp [questFilesAmong, hasFile_folder]
  | (name, t) :: es => by
    rw [questFilesAmong, List.mem_append, mem_questFiles (path ++ [name]) p content t,
      mem_questFilesAmong path p content es, ← and_or_left]
    refine and_congr_right fun _ => ?_
    simp only [hasFile_folder, List.mem_cons, Prod.mk.injEq]
    constructor
    · rintro (⟨rest, rfl, h⟩ | ⟨-, rfl, k, u, rest, hentry, rfl, h⟩)
      · exact ⟨_, by simp, name, t, rest, .inl ⟨rfl, rfl⟩, rfl, h⟩
      · exact ⟨_, rfl, k, u, rest, .inr hentry, rfl, h⟩
    · rintro ⟨-, rfl, k, u, rest, ⟨rfl, rfl⟩ | hentry, rfl, h⟩
      · exact .inl ⟨rest, by simp, h⟩
      · exact .inr ⟨_, rfl, k, u, rest, hentry, rfl, h⟩

end

mutual

/-- Where names are distinct, no two quest files have one path. -/
theorem nodup_questFiles (path : List String) : ∀ {t : FileTree}, t.Distinct →
    ((t.questFiles path).map (·.1)).Nodup
  | .file content, _ => by
    rw [questFiles]
    split <;> simp
  | .folder es, .folder hnames hentries => by
    rw [questFiles]
    exact nodup_questFilesAmong path hnames hentries

theorem nodup_questFilesAmong (path : List String) : ∀ {es : List (String × FileTree)},
    (es.map (·.1)).Nodup → (∀ e ∈ es, e.2.Distinct) → ((questFilesAmong path es).map (·.1)).Nodup
  | [], _, _ => .nil
  | (name, t) :: es, hnames, hentries => by
    obtain ⟨hnew, hnames⟩ := List.nodup_cons.mp hnames
    obtain ⟨hfirst, hentries⟩ := List.forall_mem_cons.mp hentries
    rw [questFilesAmong, List.map_append, List.nodup_append]
    refine ⟨nodup_questFiles (path ++ [name]) hfirst, nodup_questFilesAmong path hnames hentries,
      fun p hp p' hp' heq => hnew ?_⟩
    obtain ⟨⟨p, content⟩, hmem, rfl⟩ := List.mem_map.mp hp
    obtain ⟨⟨p', content'⟩, hmem', rfl⟩ := List.mem_map.mp hp'
    obtain ⟨-, rest, rfl, -⟩ := (mem_questFiles _ _ _ _).mp hmem
    obtain ⟨-, rest', rfl, hfile⟩ := (mem_questFilesAmong _ _ _ _).mp hmem'
    obtain ⟨k, u, rest'', hentry, rfl, -⟩ := hasFile_folder.mp hfile
    obtain ⟨hname, -⟩ : name = k ∧ rest = rest'' := by simpa using heq
    exact List.mem_map.mpr ⟨(k, u), hentry, hname.symm⟩

end

end FileTree

/-! ## The catalog of some files -/

theorem Quest.ofFile?_eq_some {content : ByteArray} {q : Quest} :
    Quest.ofFile? content = some q
      ↔ ∃ text, String.fromUTF8? content = some text ∧ Quest.ofText? text = some q
        ∧ q.defect? = none := by
  simp only [ofFile?, Option.filter_eq_some_iff, Option.bind_eq_some_iff, Option.isNone_iff_eq_none]
  constructor
  · rintro ⟨⟨text, htext, hq⟩, hvalid⟩
    exact ⟨text, htext, hq, hvalid⟩
  · rintro ⟨text, htext, hq, hvalid⟩
    exact ⟨⟨text, htext, hq⟩, hvalid⟩

namespace Catalog

/-- Of several quests with one id the last counts. -/
theorem get?_ofQuests (qs : List Quest) (id : String) :
    (ofQuests qs).get? id = qs.reverse.find? (·.id = id) := by
  have hfold : ∀ c : Catalog, (qs.foldl insert c).get? id
      = (qs.reverse.find? (·.id = id)).or (c.get? id) := by
    induction qs with
    | nil => exact fun c => rfl
    | cons q qs ih =>
      intro c
      rw [List.foldl_cons, ih, get?_insert, List.reverse_cons, List.find?_append, Option.or_assoc]
      by_cases hid : q.id = id <;> simp [hid]
  rw [ofQuests, hfold]
  exact Option.or_none

section Files

variable {files : List PathedFile} (hpaths : (files.map (·.1)).Nodup)

include hpaths

/-- The last file of a kind in the order of paths is the one with the greatest path. -/
theorem find?_sorted {p : PathedFile → Bool} {f : PathedFile} :
    (files.mergeSort fun a b => pathLE a.1 b.1).reverse.find? p = some f
      ↔ f ∈ files ∧ p f = true ∧ ∀ g ∈ files, p g = true → pathLE g.1 f.1 = true := by
  have hsorted := List.pairwise_reverse.mpr (@List.pairwise_mergeSort _
    (fun a b : PathedFile => pathLE a.1 b.1)
    (fun a b c => pathLE_trans a.1 b.1 c.1) (fun a b => pathLE_total a.1 b.1) files)
  have hmem : ∀ g, g ∈ (files.mergeSort fun a b => pathLE a.1 b.1).reverse ↔ g ∈ files := by simp
  generalize (files.mergeSort fun a b => pathLE a.1 b.1).reverse = sorted at hsorted hmem
  have hgreatest : ∀ {f}, sorted.find? p = some f →
      f ∈ files ∧ p f = true ∧ ∀ g ∈ files, p g = true → pathLE g.1 f.1 = true := by
    intro f hf
    obtain ⟨hpf, before, after, rfl, hbefore⟩ := List.find?_eq_some_iff_append.mp hf
    refine ⟨(hmem f).mp (by simp), hpf, fun g hg hpg => ?_⟩
    rcases List.mem_append.mp ((hmem g).mpr hg) with hg | hg
    · simpa [hpg] using hbefore g hg
    · rcases List.mem_cons.mp hg with rfl | hg
      · exact pathLE_iff.mpr (.inl rfl)
      · exact (List.pairwise_cons.mp (List.pairwise_append.mp hsorted).2.1).1 g hg
  refine ⟨hgreatest, fun ⟨hf, hpf, hall⟩ => ?_⟩
  cases hfind : sorted.find? p with
  | none => exact absurd hpf (List.find?_eq_none.mp hfind f ((hmem f).mpr hf))
  | some f' =>
    obtain ⟨hf', hpf', hall'⟩ := hgreatest hfind
    have hpath : f'.1 = f.1 := eq_of_pathLE (hall f' hf' hpf') (hall' f hf hpf)
    rw [List.inj_on_of_nodup_map hpaths hf' hf hpath]

/-- Of the valid quests of one id the catalog has the one in the file with the greatest path. -/
theorem get?_ofQuestFiles {id : String} {q : Quest} :
    (ofQuestFiles files).get? id = some q
      ↔ ∃ f ∈ files, Quest.ofFile? f.2 = some q ∧ q.id = id
        ∧ ∀ g ∈ files, ∀ r, Quest.ofFile? g.2 = some r → r.id = id →
          g.1 = f.1 ∨ PathBefore g.1 f.1 := by
  rw [ofQuestFiles, get?_ofQuests, ← List.filterMap_reverse, List.find?_filterMap,
    Option.bind_eq_some_iff]
  simp only [find?_sorted hpaths, Option.any_eq_true, decide_eq_true_eq, pathLE_iff]
  constructor
  · rintro ⟨f, ⟨hf, ⟨r, hr, hid⟩, hall⟩, hq⟩
    cases hr.symm.trans hq
    exact ⟨f, hf, hq, hid, fun g hg r' hr' hid' => hall g hg ⟨r', hr', hid'⟩⟩
  · rintro ⟨f, hf, hq, hid, hall⟩
    exact ⟨f, ⟨hf, ⟨q, hq, hid⟩, fun g hg ⟨r, hr, hid'⟩ => hall g hg r hr hid'⟩, hq⟩

end Files

end Catalog

namespace FileTree

/-- The quest files below a folder, each with its path. -/
theorem exists_questFile_iff {es : List (String × FileTree)} {path : List String} {q : Quest} :
    (∃ f ∈ questFilesAmong [] es, f.1 = path ∧ Quest.ofFile? f.2 = some q)
      ↔ (folder es).HoldsQuest path q := by
  constructor
  · rintro ⟨⟨path, content⟩, hf, rfl, hq⟩
    obtain ⟨hlast, rest, rfl, hfile⟩ := (mem_questFilesAmong _ _ _ _).mp hf
    obtain ⟨name, hname, hext⟩ := (Option.any_eq_true _ _).mp hlast
    obtain ⟨text, htext, hq, hvalid⟩ := Quest.ofFile?_eq_some.mp hq
    exact ⟨name, content, text, hname, isQuestFileName_iff.mp hext, hfile, htext, hq, hvalid⟩
  · rintro ⟨name, content, text, hname, hext, hfile, htext, hq, hvalid⟩
    refine ⟨(path, content), (mem_questFilesAmong _ _ _ _).mpr ⟨?_, path, rfl, hfile⟩, rfl,
      Quest.ofFile?_eq_some.mpr ⟨text, htext, hq, hvalid⟩⟩
    rw [hname]
    exact isQuestFileName_iff.mpr hext

/-- The catalog that is loaded from a folder, by what the files below the folder hold. -/
theorem get?_load {es : List (String × FileTree)} (hdistinct : (folder es).Distinct) {id : String}
    {q : Quest} : (Catalog.ofQuestFiles (questFilesAmong [] es)).get? id = some q
      ↔ ∃ path, (folder es).HoldsQuest path q ∧ q.id = id
        ∧ ∀ path' q', (folder es).HoldsQuest path' q' → q'.id = id →
          path' = path ∨ PathBefore path' path := by
  have hpaths : ((questFilesAmong [] es).map (·.1)).Nodup := by
    cases hdistinct with
    | folder hnames hentries => exact nodup_questFilesAmong [] hnames hentries
  rw [Catalog.get?_ofQuestFiles hpaths]
  constructor
  · rintro ⟨f, hf, hq, hid, hall⟩
    refine ⟨f.1, exists_questFile_iff.mp ⟨f, hf, rfl, hq⟩, hid, fun path' q' hq' hid' => ?_⟩
    obtain ⟨g, hg, rfl, hr⟩ := exists_questFile_iff.mpr hq'
    exact hall g hg q' hr hid'
  · rintro ⟨path, hq, hid, hall⟩
    obtain ⟨f, hf, rfl, hr⟩ := exists_questFile_iff.mpr hq
    exact ⟨f, hf, hr, hid, fun g hg r hr hid' =>
      hall g.1 r (exists_questFile_iff.mp ⟨g, hg, rfl, hr⟩) hid'⟩

/-- Some quest of an id is loaded whenever a file below the folder holds one. -/
theorem exists_get?_load {es : List (String × FileTree)} {path : List String} {q : Quest}
    (h : (folder es).HoldsQuest path q) :
    ∃ r, (Catalog.ofQuestFiles (questFilesAmong [] es)).get? q.id = some r := by
  obtain ⟨f, hf, -, hq⟩ := exists_questFile_iff.mpr h
  rw [Catalog.ofQuestFiles, Catalog.get?_ofQuests]
  refine Option.isSome_iff_exists.mp (List.find?_isSome.mpr ⟨q, ?_, by simp⟩)
  exact List.mem_reverse.mpr (List.mem_filterMap.mpr ⟨f, List.mem_mergeSort.mpr hf, hq⟩)

end FileTree

open FileTree

/-- Catalogs with the same look-ups are equal. -/
theorem Catalog.ext_get? {c d : Catalog} (h : ∀ id, c.get? id = d.get? id) : c = d := by
  obtain ⟨table, hkeyed⟩ := c
  obtain ⟨table', hkeyed'⟩ := d
  cases (Dict.ext_get? h : table = table')
  rfl

/-- **A folder of quest files.** Loading a folder gives a catalog, and the same one in whatever
order it and the folders below enumerate their entries. An id is in it exactly when some file
below the folder, whose extension is `toml`, holds a quest of that id that has no defect, and it is
the quest of the file with the greatest path. Files that hold no such quest, because they are not
texts, do not parse or have a defect, count for nothing: any folder whose files hold the same
quests under the same paths gives the same catalog. All quests stand under their own ids and have
no defect. -/
theorem loads_greatest (es : List (String × FileTree)) (hdistinct : (folder es).Distinct) :
    ∃ c, Catalog.load? (some (.folder es)) = some c
      ∧ (∀ fs, Reordered (.folder es) (.folder fs) → Catalog.load? (some (.folder fs)) = some c)
      ∧ (∀ id, c.contains id = true ↔ ∃ path q, (folder es).HoldsQuest path q ∧ q.id = id)
      ∧ (∀ id q, c.get? id = some q ↔ ∃ path, (folder es).HoldsQuest path q ∧ q.id = id
        ∧ ∀ path' q', (folder es).HoldsQuest path' q' → q'.id = id →
          path' = path ∨ PathBefore path' path)
      ∧ (∀ fs, (folder fs).Distinct →
        (∀ path q, (folder fs).HoldsQuest path q ↔ (folder es).HoldsQuest path q) →
        Catalog.load? (some (.folder fs)) = some c)
      ∧ ∀ id q, c.get? id = some q → q.id = id ∧ q.defect? = none := by
  have hsame : ∀ fs, (folder fs).Distinct →
      (∀ path q, (folder fs).HoldsQuest path q ↔ (folder es).HoldsQuest path q) →
      Catalog.load? (some (.folder fs))
        = some (Catalog.ofQuestFiles (questFilesAmong [] es)) := by
    intro fs hfs hquests
    refine congrArg some (Catalog.ext_get? fun id => Option.ext fun q => ?_)
    rw [get?_load hfs, get?_load hdistinct]
    simp only [hquests]
  refine ⟨_, rfl, fun fs hfs => hsame fs (hfs.distinct hdistinct) hfs.holdsQuest_iff,
    fun id => ?_, fun id q => get?_load hdistinct, hsame, fun id q hq => ?_⟩
  · constructor
    · intro hcontains
      obtain ⟨q, hq⟩ := Option.isSome_iff_exists.mp hcontains
      obtain ⟨path, hholds, hid, -⟩ := (get?_load hdistinct).mp hq
      exact ⟨path, q, hholds, hid⟩
    · rintro ⟨path, q, hholds, rfl⟩
      exact Option.isSome_iff_exists.mpr (exists_get?_load hholds)
  · obtain ⟨path, ⟨-, -, -, -, -, -, -, -, hvalid⟩, hid, -⟩ := (get?_load hdistinct).mp hq
    exact ⟨hid, hvalid⟩

/-! ## A loft -/

/-- A hunt for rats under a title. -/
def ratsTitled (title : String) : Quest where
  id := "rats"
  name := title
  description := ""
  category := .side
  repeatable := false
  cooldown := none
  prerequisites := .none
  steps := [⟨"cull", "Cull", "", [], ∅, [], [], true⟩]
  rewards := none
  chain := none

def oldText : String :=
  "[quest]\nid = \"rats\"\nname = \"Old\"\n[[quest.steps]]\nid = \"cull\"\nname = \"Cull\"\n"

def newText : String :=
  "[quest]\nid = \"rats\"\nname = \"New\"\n[[quest.steps]]\nid = \"cull\"\nname = \"Cull\"\n"

/-- A quest whose id is no text. -/
def brokenText : String := "[quest]\nid = 3\n"

def oldEntry : String × FileTree := ("a", .folder [("x.toml", .file oldText.toUTF8)])

def newEntry : String × FileTree := ("a.toml", .file newText.toUTF8)

def brokenEntry : String × FileTree := ("b.toml", .file brokenText.toUTF8)

/-- As texts, `a.toml` would come before `a/x.toml`; part by part it comes after, and so it counts.
The last file of all is broken. -/
theorem loads_greatest_loft :
    (folder [oldEntry, newEntry, brokenEntry]).Distinct
      ∧ ∃ c, Catalog.load? (some (folder [oldEntry, newEntry, brokenEntry])) = some c
        ∧ Catalog.load? (some (folder [newEntry, oldEntry, brokenEntry])) = some c
        ∧ c.get? "rats" = some (ratsTitled "New") := by
  have hold : Quest.ofText? oldText = some (ratsTitled "Old") := by decide +kernel
  have hnew : Quest.ofText? newText = some (ratsTitled "New") := by decide +kernel
  have hbroken : Quest.ofText? brokenText = none := by decide +kernel
  have hutf8 : ∀ s : String, String.fromUTF8? s.toUTF8 = some s := fun s => dif_pos s.isValidUTF8
  have hdistinct : (folder [oldEntry, newEntry, brokenEntry]).Distinct := by
    refine .folder (by decide) fun e he => ?_
    simp only [List.mem_cons, List.not_mem_nil, or_false] at he
    rcases he with rfl | rfl | rfl
    · exact .folder (by decide) fun e he => by rw [List.mem_singleton.mp he]; exact .file _
    · exact .file _
    · exact .file _
  obtain ⟨c, hload, hreordered, -, hget, -⟩ := loads_greatest _ hdistinct
  refine ⟨hdistinct, c, hload, hreordered _ (.folder (.swap _ _ _)), ?_⟩
  have hholds : (folder [oldEntry, newEntry, brokenEntry]).HoldsQuest ["a.toml"]
      (ratsTitled "New") :=
    ⟨"a.toml", _, newText, rfl, ⟨by decide, "a", by decide, by decide⟩,
      .inside (by simp [newEntry]) (.here _), hutf8 _, hnew, by decide⟩
  refine (hget _ _).mpr ⟨_, hholds, rfl, fun path' q' hholds' _ => ?_⟩
  obtain ⟨-, content, text, -, -, hfile, htext, hq, -⟩ := hholds'
  obtain ⟨name, t, rest, hentry, rfl, hinner⟩ := hasFile_folder.mp hfile
  simp only [List.mem_cons, List.not_mem_nil, or_false] at hentry
  rcases hentry with hentry | hentry | hentry
  · cases hentry
    exact .inr (.rel (by decide))
  · cases hentry
    obtain ⟨rfl, -⟩ := hasFile_file.mp hinner
    exact .inl rfl
  · cases hentry
    obtain ⟨-, rfl⟩ := hasFile_file.mp hinner
    cases (hutf8 _).symm.trans htext
    rw [hbroken] at hq
    cases hq

end Questline
