/-
SpringDome.Protobuf.GenerareClass — `GenerareClass.java`: the proto files that
are found under a directory, and the commands issued for them.

`getFiles` takes up an entry when its name contains ".proto", a directory as
well as a file, and does not look at the name again. So it misses what is in a
directory of another name, and finds `a.proto.bak`. `main` then names a file
by its last name alone, which is its path only at the top, and passes the command
as one text, which `exec` cuts at its whitespace.

`generator_covers_iff` says for which trees this makes no difference. The walk is
known by `walk_eq_filter`; a command is known by its words (`execArgs_command`),
and since no word has whitespace in it, a command that names a file says that
neither the file nor the project has any (`oneWord_of_execArgs_eq`).
-/
import SpringDome.Lib.FileTree
import SpringDome.Lib.StringTokenizer
import Mathlib.Data.List.Infix
import Mathlib.Data.List.TakeWhile

namespace SpringDome.Protobuf

open SpringDome.Lib.FileTree
open SpringDome.Lib.StringTokenizer

/-! ## 1. The source -/

/-- An abstract pathname, as its names. -/
abbrev File := List String

/-- `File.getName()`. -/
def getName (f : File) : String := f.getLast?.getD ""

/-- `name.contains(".proto")`. -/
def containsProto (name : String) : Bool := decide (".proto".toList <:+: name.toList)

/-- What a pathname is the name of. -/
inductive Node where
  | file
  | dir (inside : Listing)

/-- The loop over `root.listFiles()`; what is found in an entry is what
`getFiles` finds there. -/
def subFiles (root : File) : Listing → List File
  | .nil => []
  | .file name rest =>
      (if containsProto name then [root ++ [name]] else []) ++ subFiles root rest
  | .dir name inside rest =>
      (if containsProto name then subFiles (root ++ [name]) inside else []) ++ subFiles root rest

def getFiles (root : File) : Node → List File
  | .file => [root]
  | .dir inside => subFiles root inside

/-- `strCmd`. -/
def protocCommand (path protoFile : String) : String :=
  path ++ "\\google\\src\\protoc.exe -I=.\\proto --java_out=.\\src\\main\\java\\ .\\proto\\" ++
    protoFile

/-- The delimiters of a `StringTokenizer`. -/
def isDelimiter (c : Char) : Bool :=
  c == ' ' || c == '\t' || c == '\n' || c == '\r' || c == '\x0c'

/-- `Runtime.exec(String)`: the program and its arguments are the words. -/
def execArgs (command : String) : List String :=
  (tokens isDelimiter [] command.toList).map String.ofList

/-- The commands that `main` issues; `path` is the project directory. -/
def mainCommands (path : String) (proto : Node) : List (List String) :=
  (getFiles [path, "proto"] proto).map fun f => execArgs (protocCommand path (getName f))

/-! ## 2. What is asked for -/

/-- The name ends in ".proto". -/
def endsProto (name : String) : Bool := decide (".proto".toList <:+ name.toList)

/-- The paths of the proto files, from the proto directory down. -/
def protoFiles (t : DirTree '\\') : List (List String) :=
  t.entries.files.filter fun f => endsProto (getName f)

/-- `getFiles` returns every proto file once, and nothing else. -/
def ListsProtoFiles (root : File) (t : DirTree '\\') : Prop :=
  (getFiles root (.dir t.entries)).Nodup ∧
    ∀ f, f ∈ getFiles root (.dir t.entries) ↔ ∃ below ∈ protoFiles t, f = root ++ below

/-- `protoc.exe`, its two options, and a file under the proto directory. -/
def protocArgs (path file : String) : List String :=
  [path ++ "\\google\\src\\protoc.exe", "-I=.\\proto", "--java_out=.\\src\\main\\java\\",
    ".\\proto\\" ++ file]

/-- `main` issues one command for every proto file, with its path, and no
others. -/
def CompilesProtoFiles (path : String) (t : DirTree '\\') : Prop :=
  (mainCommands path (.dir t.entries)).Perm
    ((protoFiles t).map fun f => protocArgs path (joinPath "\\" f))

/-- The directories above a proto file have ".proto" in their names. -/
def ProtoDirs (t : DirTree '\\') : Prop :=
  ∀ f ∈ protoFiles t, ∀ name ∈ f.dropLast, containsProto name = true

/-- The proto files are in the proto directory itself. -/
def ProtoAtTop (t : DirTree '\\') : Prop := ∀ f ∈ protoFiles t, f.length = 1

/-- A text without whitespace. -/
def OneWord (text : String) : Prop := ∀ c ∈ text.toList, isDelimiter c = false

instance (text : String) : Decidable (OneWord text) :=
  List.decidableBAll (fun c => isDelimiter c = false) text.toList

/-- There is no whitespace in the names of proto files, nor in that of the project
if there is a proto file. -/
def ProtoOneWord (path : String) (t : DirTree '\\') : Prop :=
  ∀ f ∈ protoFiles t, OneWord path ∧ OneWord (getName f)

/-- A file with ".proto" in its name, under directories that have it too, ends
in it. -/
def ProtoLast (t : DirTree '\\') : Prop :=
  ∀ f ∈ t.entries.files, (∀ name ∈ f, containsProto name = true) → endsProto (getName f) = true

/-! ## 3. What is found -/

theorem containsProto_of_endsProto {name : String} (h : endsProto name = true) :
    containsProto name = true :=
  decide_eq_true (of_decide_eq_true h).isInfix

theorem getName_append {root f : File} (h : f ≠ []) : getName (root ++ f) = getName f := by
  unfold getName
  rw [List.getLast?_append_of_ne_nil _ h]

/-- The loop is a walk from the root on. -/
theorem subFiles_eq (root : File) (l : Listing) :
    subFiles root l = (l.walk containsProto).map (root ++ ·) := by
  induction l generalizing root with
  | nil => rfl
  | file name rest ih =>
      rw [subFiles, Listing.walk, ih, List.map_append]
      split <;> rfl
  | dir name inside rest ihinside ihrest =>
      rw [subFiles, Listing.walk, ihinside, ihrest, List.map_append]
      split
      · rw [List.map_map]
        simp [Function.comp_def]
      · rfl

theorem getFiles_eq (root : File) (t : DirTree '\\') :
    getFiles root (.dir t.entries) =
      (t.entries.files.filter fun f => f.all containsProto).map (root ++ ·) := by
  rw [getFiles, subFiles_eq, Listing.walk_eq_filter]

theorem mem_protoFiles {t : DirTree '\\'} {f : File} :
    f ∈ protoFiles t ↔ f ∈ t.entries.files ∧ endsProto (getName f) = true := List.mem_filter

/-- A path is the directories and the name. -/
theorem forall_mem_path {t : DirTree '\\'} {f : File} (hf : f ∈ t.entries.files)
    {p : String → Prop} : (∀ name ∈ f, p name) ↔ (∀ name ∈ f.dropLast, p name) ∧ p (getName f) := by
  have hne := Listing.ne_nil_of_mem_files hf
  have hname : getName f = f.getLast hne := by
    unfold getName
    rw [List.getLast?_eq_some_getLast hne, Option.getD_some]
  have hsplit := List.dropLast_append_getLast hne
  rw [hname]
  constructor
  · intro h
    exact ⟨fun name hmem => h name (List.dropLast_subset f hmem), h _ (List.getLast_mem hne)⟩
  · rintro ⟨hdirs, hlast⟩ name hmem
    rw [← hsplit] at hmem
    rcases List.mem_append.mp hmem with hmem | hmem
    · exact hdirs name hmem
    · rw [List.mem_singleton.mp hmem]
      exact hlast

/-- The walk finds the proto files, and no others. -/
def FindsProto (t : DirTree '\\') : Prop :=
  ∀ f ∈ t.entries.files, (∀ name ∈ f, containsProto name = true) ↔ endsProto (getName f) = true

theorem findsProto_iff (t : DirTree '\\') : FindsProto t ↔ ProtoDirs t ∧ ProtoLast t := by
  constructor
  · intro h
    refine ⟨?_, fun f hf => (h f hf).mp⟩
    intro f hf
    obtain ⟨hfile, hends⟩ := mem_protoFiles.mp hf
    exact ((forall_mem_path hfile).mp ((h f hfile).mpr hends)).1
  · rintro ⟨hdirs, hlast⟩ f hf
    refine ⟨hlast f hf, ?_⟩
    intro hends
    exact (forall_mem_path hf).mpr
      ⟨hdirs f (mem_protoFiles.mpr ⟨hf, hends⟩), containsProto_of_endsProto hends⟩

/-- Then it lists just them. -/
theorem getFiles_of_findsProto {t : DirTree '\\'} (h : FindsProto t) (root : File) :
    getFiles root (.dir t.entries) = (protoFiles t).map (root ++ ·) := by
  rw [getFiles_eq]
  unfold protoFiles
  congr 1
  refine List.filter_congr ?_
  intro f hf
  rw [Bool.eq_iff_iff, List.all_eq_true]
  exact h f hf

theorem listsProtoFiles_iff (root : File) (t : DirTree '\\') :
    ListsProtoFiles root t ↔ FindsProto t := by
  have hroot : Function.Injective fun f : File => root ++ f := fun f g => List.append_cancel_left
  constructor
  · rintro ⟨-, hmem⟩ f hf
    have hfound : root ++ f ∈ getFiles root (.dir t.entries) ↔
        ∀ name ∈ f, containsProto name = true := by
      rw [getFiles_eq, List.mem_map_of_injective hroot, List.mem_filter, List.all_eq_true]
      exact and_iff_right hf
    have hasked : (∃ below ∈ protoFiles t, root ++ f = root ++ below) ↔
        endsProto (getName f) = true := by
      constructor
      · rintro ⟨below, hbelow, heq⟩
        rw [hroot heq]
        exact (mem_protoFiles.mp hbelow).2
      · intro hends
        exact ⟨f, mem_protoFiles.mpr ⟨hf, hends⟩, rfl⟩
    rw [← hfound, hmem, hasked]
  · intro h
    unfold ListsProtoFiles
    rw [getFiles_of_findsProto h]
    refine ⟨((Listing.nodup_files t.wellFormed).filter _).map hroot, ?_⟩
    intro f
    rw [List.mem_map]
    exact exists_congr fun below => and_congr_right fun _ => eq_comm

/-! ## 4. What is compiled -/

/-- The words of a command, if there is no whitespace in the project directory:
a file is named as far as its first whitespace, and what follows are more words. -/
theorem execArgs_command {path : String} (hpath : OneWord path) (name : String) :
    execArgs (protocCommand path name) =
      protocArgs path (String.ofList (name.toList.takeWhile fun c => !isDelimiter c)) ++
        (tokens isDelimiter [] (name.toList.dropWhile fun c => !isDelimiter c)).map
          String.ofList := by
  have hsplit : (protocCommand path name).toList =
      (path.toList ++ "\\google\\src\\protoc.exe".toList) ++ ' ' :: ("-I=.\\proto".toList ++
        ' ' :: ("--java_out=.\\src\\main\\java\\".toList ++
          ' ' :: (".\\proto\\".toList ++ name.toList))) := by
    simp [protocCommand]
  have hprotoc : OneWord "\\google\\src\\protoc.exe" := by decide
  have hinclude : OneWord "-I=.\\proto" := by decide
  have hout : OneWord "--java_out=.\\src\\main\\java\\" := by decide
  have hdir : OneWord ".\\proto\\" := by decide
  have hexe : ∀ c ∈ path.toList ++ "\\google\\src\\protoc.exe".toList, isDelimiter c = false := by
    intro c hc
    rcases List.mem_append.mp hc with hc | hc
    · exact hpath c hc
    · exact hprotoc c hc
  rw [execArgs, hsplit, tokens_cons (by simp) hexe rfl, tokens_cons (by simp) hinclude rfl,
    tokens_cons (by simp) hout rfl, tokens_append hdir, List.nil_append, tokens_of_word (by simp)]
  simp only [List.map_cons, protocArgs, String.ofList_append, String.ofList_toList,
    List.cons_append, List.nil_append]

/-- No word has whitespace in it. -/
theorem oneWord_of_mem_execArgs {command word : String} (h : word ∈ execArgs command) :
    OneWord word := by
  obtain ⟨letters, hletters, rfl⟩ := List.mem_map.mp h
  intro c hc
  rw [String.toList_ofList] at hc
  exact plain_of_mem_tokens (fun _ h => absurd h List.not_mem_nil) hletters c hc

theorem protocArgs_inj {path file other : String} (h : protocArgs path file = protocArgs path other) :
    file = other := by
  have hlast := (List.cons.inj (List.cons.inj (List.cons.inj (List.cons.inj h).2).2).2).1
  have hchars := congrArg String.toList hlast
  simp only [String.toList_append] at hchars
  exact String.toList_inj.mp (List.append_cancel_left hchars)

theorem oneWord_append {a b : String} : OneWord (a ++ b) ↔ OneWord a ∧ OneWord b := by
  unfold OneWord
  rw [String.toList_append, List.forall_mem_append]

theorem execArgs_of_oneWord {path name : String} (hpath : OneWord path) (hname : OneWord name) :
    execArgs (protocCommand path name) = protocArgs path name := by
  have hletters : ∀ c ∈ name.toList, (!isDelimiter c) = true := by
    intro c hc
    rw [hname c hc]
    rfl
  rw [execArgs_command hpath, List.takeWhile_eq_self_iff.mpr hletters,
    List.dropWhile_eq_nil_iff.mpr hletters, String.ofList_toList]
  exact List.append_nil _

/-- A command that names a file. It may be issued for another, whose name goes on
with whitespace. -/
theorem oneWord_of_execArgs_eq {path name file : String}
    (h : execArgs (protocCommand path name) = protocArgs path file) :
    OneWord path ∧ OneWord file ∧
      file = String.ofList (name.toList.takeWhile fun c => !isDelimiter c) := by
  have hword : ∀ word ∈ protocArgs path file, OneWord word :=
    fun word hmem => oneWord_of_mem_execArgs (h ▸ hmem)
  have hpath := (oneWord_append.mp (hword _ List.mem_cons_self)).1
  have hfile := (oneWord_append.mp (hword (".\\proto\\" ++ file) (by simp [protocArgs]))).2
  have hmore := execArgs_command hpath name
  rw [h] at hmore
  have hnil : (tokens isDelimiter [] (name.toList.dropWhile fun c => !isDelimiter c)).map
      String.ofList = [] := by
    have hlength := congrArg List.length hmore
    rw [List.length_append] at hlength
    exact List.length_eq_zero_iff.mp (by simpa [protocArgs] using hlength)
  rw [hnil, List.append_nil] at hmore
  exact ⟨hpath, hfile, protocArgs_inj hmore⟩

/-- The files that are found, from the proto directory down. -/
def found (t : DirTree '\\') : List File := t.entries.files.filter fun f => f.all containsProto

theorem mainCommands_eq (path : String) (t : DirTree '\\') :
    mainCommands path (.dir t.entries) =
      (found t).map fun f => execArgs (protocCommand path (getName f)) := by
  rw [mainCommands, getFiles_eq, List.map_map]
  refine List.map_congr_left fun f hf => ?_
  have hne := Listing.ne_nil_of_mem_files (List.mem_filter.mp hf).1
  show execArgs (protocCommand path (getName ([path, "proto"] ++ f))) = _
  rw [getName_append hne]

theorem getName_mem {f : File} (h : f ≠ []) : getName f ∈ f := by
  unfold getName
  rw [List.getLast?_eq_some_getLast h]
  exact List.getLast_mem h

theorem joinPath_eq_getName {f : File} (h : f.length = 1) : joinPath "\\" f = getName f := by
  obtain ⟨name, rfl⟩ := List.length_eq_one_iff.mp h
  exact joinPath_singleton "\\" name

/-- Files at the top are known by their names. -/
theorem eq_of_getName_eq {f g : File} (hf : f.length = 1) (hg : g.length = 1)
    (h : getName f = getName g) : f = g := by
  obtain ⟨name, rfl⟩ := List.length_eq_one_iff.mp hf
  obtain ⟨other, rfl⟩ := List.length_eq_one_iff.mp hg
  exact congrArg (fun name => [name]) h

/-- A part of a name is the path of a file at the top only. -/
theorem length_eq_one_of_takeWhile {t : DirTree '\\'} {f g : File} {p : Char → Bool}
    (hf : f ∈ t.entries.files) (hg : g ∈ t.entries.files)
    (h : joinPath "\\" f = String.ofList ((getName g).toList.takeWhile p)) : f.length = 1 := by
  have hpos := List.length_pos_iff.mpr (Listing.ne_nil_of_mem_files hf)
  by_contra hlength
  have hseparator : '\\' ∈ (joinPath "\\" f).toList :=
    @separator_mem_joinPath '\\' f (by omega)
  rw [h, String.toList_ofList] at hseparator
  exact Listing.separator_notMem t.wellFormed hg
    (getName_mem (Listing.ne_nil_of_mem_files hg)) ((List.takeWhile_sublist p).subset hseparator)

/-- Without directories above a proto file, none is left out. -/
theorem protoDirs_of_protoAtTop {t : DirTree '\\'} (h : ProtoAtTop t) : ProtoDirs t := by
  intro f hf name hmem
  obtain ⟨last, rfl⟩ := List.length_eq_one_iff.mp (h f hf)
  cases hmem

/-- A proto file at the top is found. -/
theorem mem_found_of_length {t : DirTree '\\'} {f : File} (hf : f ∈ protoFiles t)
    (hlength : f.length = 1) : f ∈ found t := by
  obtain ⟨hfile, hends⟩ := mem_protoFiles.mp hf
  obtain ⟨name, rfl⟩ := List.length_eq_one_iff.mp hlength
  refine List.mem_filter.mpr ⟨hfile, ?_⟩
  have hname : getName [name] = name := rfl
  rw [hname] at hends
  simpa using containsProto_of_endsProto hends

theorem compilesProtoFiles_iff (path : String) (t : DirTree '\\') :
    CompilesProtoFiles path t ↔ ProtoAtTop t ∧ ProtoLast t ∧ ProtoOneWord path t := by
  unfold CompilesProtoFiles
  rw [mainCommands_eq]
  constructor
  · intro h
    -- the command for a proto file is issued for some file that is found
    have hissued : ∀ f ∈ protoFiles t, ∃ g ∈ found t,
        execArgs (protocCommand path (getName g)) = protocArgs path (joinPath "\\" f) :=
      fun f hf => List.mem_map.mp (h.mem_iff.mpr (List.mem_map_of_mem hf))
    have htop : ProtoAtTop t := by
      intro f hf
      obtain ⟨g, hg, heq⟩ := hissued f hf
      exact length_eq_one_of_takeWhile (mem_protoFiles.mp hf).1 (List.mem_filter.mp hg).1
        (oneWord_of_execArgs_eq heq).2.2
    have hwords : ProtoOneWord path t := by
      intro f hf
      obtain ⟨g, -, heq⟩ := hissued f hf
      obtain ⟨hpath, hname, -⟩ := oneWord_of_execArgs_eq heq
      exact ⟨hpath, joinPath_eq_getName (htop f hf) ▸ hname⟩
    refine ⟨htop, ?_, hwords⟩
    -- no two commands are the same, so a file that is found is the one it is compiled as
    have hnodup : ((found t).map fun f => execArgs (protocCommand path (getName f))).Nodup := by
      rw [h.nodup_iff]
      refine List.Nodup.map_on ?_ ((Listing.nodup_files t.wellFormed).filter _)
      intro f hf g hg heq
      have hpaths := protocArgs_inj heq
      rw [joinPath_eq_getName (htop f hf), joinPath_eq_getName (htop g hg)] at hpaths
      exact eq_of_getName_eq (htop f hf) (htop g hg) hpaths
    intro f hf hall
    have hfound : f ∈ found t := List.mem_filter.mpr ⟨hf, List.all_eq_true.mpr hall⟩
    obtain ⟨g, hg, heq⟩ := List.mem_map.mp (h.mem_iff.mp (List.mem_map_of_mem hfound))
    obtain ⟨hpath, hname⟩ := hwords g hg
    have hsame : f = g := by
      refine List.inj_on_of_nodup_map hnodup hfound (mem_found_of_length hg (htop g hg)) ?_
      rw [← heq, joinPath_eq_getName (htop g hg), execArgs_of_oneWord hpath hname]
    rw [hsame]
    exact (mem_protoFiles.mp hg).2
  · rintro ⟨htop, hlast, hwords⟩
    have hfinds := (findsProto_iff t).mpr ⟨protoDirs_of_protoAtTop htop, hlast⟩
    have hfound : found t = protoFiles t := by
      refine List.filter_congr fun f hf => ?_
      rw [Bool.eq_iff_iff, List.all_eq_true]
      exact hfinds f hf
    rw [hfound]
    refine List.Perm.of_eq (List.map_congr_left fun f hf => ?_)
    obtain ⟨hpath, hname⟩ := hwords f hf
    rw [joinPath_eq_getName (htop f hf), execArgs_of_oneWord hpath hname]

/-- **The generator covers the tree** exactly when the filter by ".proto" tells
the proto files and what leads to them from the rest; its commands are right
exactly when the files are at the top as well, and nothing that a command names
has whitespace in it. -/
theorem generator_covers_iff (root : File) (path : String) (t : DirTree '\\') :
    (ListsProtoFiles root t ↔ ProtoDirs t ∧ ProtoLast t) ∧
      (CompilesProtoFiles path t ↔ ProtoAtTop t ∧ ProtoLast t ∧ ProtoOneWord path t) := by
  refine ⟨?_, compilesProtoFiles_iff path t⟩
  rw [listsProtoFiles_iff]
  exact findsProto_iff t

/-- `user\a.proto`. -/
def protoInUser : DirTree '\\' := ⟨.dir "user" (.file "a.proto" .nil) .nil, by decide⟩

/-- `a.proto.bak`. -/
def protoBackup : DirTree '\\' := ⟨.file "a.proto.bak" .nil, by decide⟩

/-- `x.proto\a.proto`. -/
def protoInProto : DirTree '\\' := ⟨.dir "x.proto" (.file "a.proto" .nil) .nil, by decide⟩

/-- `a b.proto`. -/
def protoSpaced : DirTree '\\' := ⟨.file "a b.proto" .nil, by decide⟩

/-- The first is missed, the second is found, the third is compiled as
`.\proto\a.proto`, and no argument is the path of the fourth. -/
theorem generator_misses :
    getFiles ["C:", "proto"] (.dir protoInUser.entries) = [] ∧
      getFiles ["C:", "proto"] (.dir protoBackup.entries) = [["C:", "proto", "a.proto.bak"]] ∧
      mainCommands "C:" (.dir protoInProto.entries) = [protocArgs "C:" "a.proto"] ∧
      mainCommands "C:" (.dir protoSpaced.entries) = [protocArgs "C:" "a" ++ ["b.proto"]] ∧
      (¬ ListsProtoFiles ["C:", "proto"] protoInUser ∧ ¬ CompilesProtoFiles "C:" protoInUser) ∧
      (¬ ListsProtoFiles ["C:", "proto"] protoBackup ∧ ¬ CompilesProtoFiles "C:" protoBackup) ∧
      (ListsProtoFiles ["C:", "proto"] protoInProto ∧ ¬ CompilesProtoFiles "C:" protoInProto) ∧
      (ListsProtoFiles ["C:", "proto"] protoSpaced ∧ ¬ CompilesProtoFiles "C:" protoSpaced) := by
  simp only [listsProtoFiles_iff, findsProto_iff, compilesProtoFiles_iff]
  unfold ProtoDirs ProtoAtTop ProtoLast ProtoOneWord
  refine ⟨?_, ?_, ?_, ?_, ?_, ?_, ?_, ?_⟩ <;> decide +kernel

end SpringDome.Protobuf
