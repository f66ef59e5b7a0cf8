/-
SpringDome.Controller.ApiRuns — every history of requests is one of a book.

§1 is the message that `selectIdwq` builds, §2 the table as a book. A request
does with the table what it does with the book (`handles_book`), so a history
does (`history_book`): a number has one name at most and keeps it, and every
reply is what is known by then (`replies_known`).

How the proofs go. What a statement does to the table is known from the mapper
(`performs_insert`, `performs_selectByExample`, `performs_selectByPrimaryKey`).
What is left is that the table of a server that admits it is a book: numbers
are in it once (`book_eq_some_iff`), a row is added at the end if its number is
new (`book_append`), and a list in the order of the numbers is cut at its front
(`lists_take`). That the server admits the table is the invariant of a history,
since a save that it does not admit leaves the table alone.

Why the side conditions are there. `Keyed` says what the table has to be for a
number to have one name: `id` is its key, is given by the user and not made up
by the server, and the server refuses what does not fit. A name has to be short
enough for the `int` that counts the bytes of a message (`Keyed.short`); with it
the size that `toByteArray` computes is the length that is written.
-/
import SpringDome.Controller.ApiController
import SpringDome.Mapper.UserTableTheorems
import SpringDome.Protobuf.UserProtoRuns

namespace SpringDome.Controller

open SpringDome.Bean
open SpringDome.Lib
open SpringDome.Lib.Sql
open SpringDome.Mapper
open SpringDome.Protobuf (Runtime Thrown Builder Response Content Reached copyFromUtf8
  vectorRuntime vectorRuntime_lawful)

variable {U : Type} {rt : Runtime U}

/-! ## 1. The message -/

/-- A set of unknown fields that nothing was added to is written as nothing. -/
theorem write_defaultInstance (hrt : rt.Lawful) : (rt.asFields rt.defaultInstance).write = [] := by
  have htags := hrt.tags_asFields .nil
  cases hfields : rt.asFields rt.defaultInstance with
  | nil => rfl
  | leaf number payload rest =>
      change ∀ tag ∈ (rt.asFields rt.defaultInstance).tags, tag ∈ [] at htags
      rw [hfields] at htags
      exact absurd (htags _ List.mem_cons_self) (List.not_mem_nil)
  | group number inside rest =>
      change ∀ tag ∈ (rt.asFields rt.defaultInstance).tags, tag ∈ [] at htags
      rw [hfields] at htags
      exact absurd (htags _ List.mem_cons_self) (List.not_mem_nil)

/-- The fields of the message. -/
def personContent (rt : Runtime U) (id : Int32) (name : String) : Content U :=
  ⟨some id, some id, some (copyFromUtf8 name), rt.defaultInstance⟩

theorem length_person (hrt : rt.Lawful) (id : Int32) {name : String}
    (hshort : (copyFromUtf8 name).length < 2 ^ 16) :
    ((personContent rt id name).write rt).length < 2 ^ 31 := by
  have hvarint := WireFormat.Varint.length_encode_le_limit 10
  have hint : ∀ number, (Protobuf.writeInt32 number id).length ≤ 20 := by
    intro number
    have htag := hvarint (WireFormat.makeTag number 0)
    have hvalue := hvarint id.toInt64.toUInt64.toNat
    show (WireFormat.varint _ ++ WireFormat.varint _).length ≤ 20
    rw [List.length_append]
    exact Nat.add_le_add htag hvalue
  have hbytes : (Protobuf.writeBytes 3 (copyFromUtf8 name)).length ≤ 20 + 2 ^ 16 := by
    have htag := hvarint (WireFormat.makeTag 3 2)
    have hlength := hvarint (copyFromUtf8 name).length
    show (WireFormat.varint _ ++ (WireFormat.varint _ ++ copyFromUtf8 name)).length ≤ _
    rw [List.length_append, List.length_append]
    unfold WireFormat.varint
    omega
  have hone := hint 1
  have htwo := hint 2
  rw [Content.write_eq]
  simp only [personContent, Option.map_some, Option.getD_some, List.length_append,
    write_defaultInstance hrt, List.length_nil]
  omega

/-- The bytes of a user with a name say what they are asked for. -/
theorem personBytes_spec (hrt : rt.Lawful) (id : Int32) {name : String}
    (hshort : (copyFromUtf8 name).length < 2 ^ 16) :
    ∃ bytes, personBytes rt ⟨some id, some name⟩ id = .ok bytes ∧ Says rt bytes id name := by
  let builder := (((Builder.create rt).setInfoString name).setResult id).setId id
  have hcontent : builder.content = personContent rt id name := by
    rw [Builder.content_setId, Builder.content_setResult, Builder.content_setInfoString,
      Builder.content_create]
    rfl
  have hmade := (Reached.of_fields rt name id id).made hrt
  obtain ⟨hinitialized, hsame, hsound⟩ := Response.isInitialized_eq hmade.sound
  have hperson : builder.buildPartial.isInitialized.2.content = personContent rt id name := by
    rw [hsame, Builder.content_buildPartial, hcontent]
  have hmade' : builder.buildPartial.isInitialized.2.Made rt := by
    refine ⟨hsound, ?_⟩
    rw [hperson]
    exact rt.kept_defaultInstance
  have hid : builder.buildPartial.hasId = true := by
    rw [Response.hasId_eq, Builder.content_buildPartial, hcontent]
    rfl
  have hbuild : builder.build = .ok builder.buildPartial.isInitialized.2 := by
    unfold Builder.build
    rw [← hinitialized] at hid
    generalize builder.buildPartial.isInitialized = result at hid
    obtain ⟨initialized, person⟩ := result
    exact if_pos hid
  have hbytes : (builder.buildPartial.isInitialized.2.toByteArray rt).1 =
      .ok ((personContent rt id name).write rt) := by
    rw [(Response.toByteArray_eq hsound).1, hperson]
    exact (Content.toByteArray_eq_ok_iff _ _ _).mpr ⟨rfl, length_person hrt id hshort⟩
  refine ⟨(personContent rt id name).write rt, ?_, ?_⟩
  · show (builder.build.bind fun person => (person.toByteArray rt).1) = _
    rw [hbuild]
    exact hbytes
  · have hparse := Response.parseFrom_of_readsTo rt (Response.readsTo_toByteArray hrt hmade' hbytes)
    rw [Content.empty_addFields_fields hrt hmade'.kept, hperson] at hparse
    obtain ⟨person, hperson', -, hmade'', hfields⟩ := hparse
    have hasks := fun a => (Protobuf.Accessor.run_eq hmade''.sound a).1
    rw [hfields] at hasks
    have hinfo := hasks .getInfo
    rw [Protobuf.Accessor.answer, personContent, Option.getD_some,
      rt.toStringUtf8_copyFromUtf8] at hinfo
    refine ⟨person, hperson', ?_, ?_, ?_, ?_, ?_, ?_⟩
    · exact Protobuf.Answer.boolean.inj (hasks .hasId)
    · exact Protobuf.Answer.int.inj (hasks .getId)
    · exact Protobuf.Answer.boolean.inj (hasks .hasResult)
    · exact Protobuf.Answer.int.inj (hasks .getResult)
    · exact Protobuf.Answer.boolean.inj (hasks .hasInfo)
    · exact Protobuf.Answer.string.inj hinfo

theorem replySelectIdwq_ok {u : User} {id : Int32} {bytes : List UInt8}
    (h : personBytes rt u id = .ok bytes) :
    replySelectIdwq rt id (.user (some u)) = .protobuf bytes := by
  simp only [replySelectIdwq, h]

/-- Nobody without a name. -/
theorem replySelectIdwq_noName (rt : Runtime U) (uid : Option Int32) (id : Int32) :
    replySelectIdwq rt id (.user (some ⟨uid, none⟩)) = .error := by
  have hthrown : personBytes rt ⟨uid, none⟩ id = .error .nullPointer := rfl
  simp only [replySelectIdwq, hthrown]

/-! ## 2. The table as a book -/

section Table

variable {table : List User}

theorem hasKey_some {id : Int32} {u : User} : hasKey (some id) u = true ↔ u.id = some id := by
  unfold hasKey
  rw [Option.isSome_some, Bool.true_and, beq_iff_eq]

theorem book_eq_none_iff {id : Int32} : book table id = none ↔ some id ∉ table.map User.id := by
  unfold book
  rw [Option.map_eq_none_iff, List.find?_eq_none, List.mem_map]
  constructor
  · intro h hmem
    obtain ⟨u, hu, hid⟩ := hmem
    exact h u hu (hasKey_some.mpr hid)
  · intro h u hu hkey
    exact h ⟨u, hu, hasKey_some.mp hkey⟩

/-- A number is found once at most. -/
theorem filter_hasKey (h : (table.map User.id).Nodup) (id : Int32) :
    table.filter (hasKey (some id)) = (table.find? (hasKey (some id))).toList := by
  induction table with
  | nil => rfl
  | cons u table ih =>
      obtain ⟨hnew, hrest⟩ := List.nodup_cons.mp h
      by_cases hkey : hasKey (some id) u = true
      · rw [List.filter_cons_of_pos hkey, List.find?_cons_of_pos hkey, Option.toList_some,
          List.cons.injEq, List.filter_eq_nil_iff]
        refine ⟨rfl, fun v hv hkey' => hnew (List.mem_map.mpr ⟨v, hv, ?_⟩)⟩
        rw [hasKey_some.mp hkey, hasKey_some.mp hkey']
      · rw [List.filter_cons_of_neg hkey, List.find?_cons_of_neg hkey, ih hrest]

theorem book_eq_some_iff (h : (table.map User.id).Nodup) {id : Int32} {name : Option String} :
    book table id = some name ↔ ⟨some id, name⟩ ∈ table := by
  unfold book
  rw [Option.map_eq_some_iff]
  constructor
  · intro hfind
    obtain ⟨u, hu, hname⟩ := hfind
    have hid := hasKey_some.mp (List.find?_some hu)
    have heq : u = ⟨some id, name⟩ := by
      obtain ⟨uid, uname⟩ := u
      cases hid
      cases hname
      rfl
    rw [← heq]
    exact List.mem_of_find?_eq_some hu
  · intro hmem
    have hkept : (⟨some id, name⟩ : User) ∈ table.filter (hasKey (some id)) :=
      List.mem_filter.mpr ⟨hmem, hasKey_some.mpr rfl⟩
    rw [filter_hasKey h, Option.mem_toList] at hkept
    exact ⟨_, hkept, rfl⟩

theorem book_append (id : Int32) (name : String) (hnew : book table id = none) :
    book (table ++ [⟨some id, some name⟩]) = (book table).write id name := by
  funext key
  by_cases hkey : key = id
  · subst hkey
    unfold book at hnew
    rw [Book.write_self, book, List.find?_append, Option.map_eq_none_iff.mp hnew, Option.none_or,
      List.find?_cons_of_pos (hasKey_some.mpr rfl)]
    rfl
  · rw [Book.write_of_ne _ hkey, book, List.find?_append, List.find?_cons_of_neg, List.find?_nil,
      Option.or_none]
    · rfl
    · intro hother
      exact hkey (Option.some.inj (hasKey_some.mp hother)).symm

theorem primaryKey_append {u : User} : PrimaryKey (table ++ [u]) ↔
    PrimaryKey table ∧ u.id ∉ table.map User.id ∧ u.id ≠ none := by
  unfold PrimaryKey
  rw [List.map_append, List.nodup_append', List.mem_append]
  simp only [List.map_cons, List.map_nil, List.mem_singleton, List.nodup_singleton, true_and,
    List.disjoint_singleton, not_or, ne_eq]
  constructor
  · intro h
    exact ⟨⟨h.1.1, h.2.1⟩, h.1.2, fun hid => h.2.2 hid.symm⟩
  · intro h
    exact ⟨⟨h.1.1, h.2.1⟩, h.1.2, fun hid => h.2.2 hid.symm⟩

end Table

/-! ## 3. Requests -/

section Requests

variable {strict : Bool} {m : Mysql} {fits : User → Bool} {table table' : List User} {reply : Reply}

/-- `save` writes a new number, and no other. -/
theorem save_book (hm : Keyed m fits) (hadmits : m.admits table = true) {id : Int32} {name : String}
    (h : Handles strict m rt table (.save id name) reply table') :
    m.admits table' = true ∧ (book table).Step rt fits (.save id name) reply (book table') := by
  obtain ⟨a, hperforms, rfl⟩ := h
  have hsettle := (performs_insert ⟨some id, some name⟩).mp hperforms
  obtain ⟨hkey, hrows⟩ := (hm.admits table).mp hadmits
  have hnew : m.admits (table ++ [⟨some id, some name⟩]) = true ↔
      book table id = none ∧ fits ⟨some id, some name⟩ = true := by
    rw [hm.admits, primaryKey_append, book_eq_none_iff, List.forall_mem_append]
    constructor
    · intro h
      exact ⟨h.1.2.1, h.2.2 _ List.mem_cons_self⟩
    · intro h
      refine ⟨⟨hkey, h.1, fun hnone => nomatch hnone⟩, hrows, ?_⟩
      exact List.forall_mem_singleton.mpr h.2
  rw [Command.apply, written] at hsettle
  unfold Book.Step
  dsimp only
  by_cases hfree : book table id = none ∧ fits ⟨some id, some name⟩ = true
  · rw [if_pos (hnew.mpr hfree)] at hsettle
    cases hsettle
    rw [if_pos hfree]
    exact ⟨hnew.mpr hfree, rfl, book_append id name hfree.1⟩
  · rw [if_neg fun hadmits' => hfree (hnew.mp hadmits')] at hsettle
    cases hsettle
    rw [if_neg hfree]
    exact ⟨hadmits, rfl, rfl⟩

/-- There is a reply for a number with a name, and an error for any other:
nobody is found who could be asked for it, or the name set is `null`. -/
theorem selectIdwq_book (hrt : rt.Lawful) (hm : Keyed m fits) (hadmits : m.admits table = true)
    {id : Int32} (h : Handles strict m rt table (.selectIdwq id) reply table') :
    m.admits table' = true ∧ (book table).Step rt fits (.selectIdwq id) reply (book table') := by
  obtain ⟨a, hperforms, rfl⟩ := h
  obtain ⟨hkey, hrows⟩ := (hm.admits table).mp hadmits
  have hone := (performs_selectByPrimaryKey (some id)).mp hperforms
  unfold Command.Step at hone
  dsimp only at hone
  rw [filter_hasKey hkey.1] at hone
  cases hfound : table.find? (hasKey (some id)) with
  | none =>
      rw [hfound] at hone
      cases hone
      refine ⟨hadmits, rfl, .inr ⟨?_, rfl⟩⟩
      intro name hname
      unfold book at hname
      rw [hfound] at hname
      cases hname
  | some u =>
      rw [hfound] at hone
      cases hone
      refine ⟨hadmits, rfl, ?_⟩
      have hbook : book table id = some u.name := by
        unfold book
        rw [hfound]
        rfl
      have hid := hasKey_some.mp (List.find?_some hfound)
      have hfits := hrows u (List.mem_of_find?_eq_some hfound)
      obtain ⟨uid, uname⟩ := u
      cases hid
      cases uname with
      | none =>
          refine .inr ⟨fun name hname => ?_, replySelectIdwq_noName rt (some id) id⟩
          rw [hbook] at hname
          cases hname
      | some name =>
          obtain ⟨bytes, hbytes, hsays⟩ := personBytes_spec hrt id (hm.short _ hfits name rfl)
          exact .inl ⟨name, bytes, hbook, replySelectIdwq_ok hbytes, hsays⟩

/-- `order by id` puts the users of a table in the order of their numbers. -/
theorem orderBy_id (hm : Keyed m fits) : ∃ le, m.orderBy (fixedTokens "id") = some le ∧
    ∀ (u v : User) (id id' : Int32), u.id = some id → v.id = some id' →
      (le u v = true ↔ id ≤ id') := by
  refine ⟨_, hm.orderBy.trans rfl, ?_⟩
  intro u v id id' hu hv
  have hcell : ∀ w : User, userCell w "id" = ofInteger w.id := fun _ => rfl
  show (((OrderItem.mk "id" none).rank m.dialect userCell u v).then .eq != .gt) = true ↔ _
  have hrank : (OrderItem.mk "id" none).rank m.dialect userCell u v =
      compare id.toInt id'.toInt := by
    unfold OrderItem.rank Dialect.rank
    rw [hcell, hcell, hu, hv, m.isNull_eq]
    simp only [ofInteger, DynamicSql.Obj.isNull, m.compare_int]
    rfl
  rw [hrank, Int32.le_iff_toInt_le, ← Int.compare_ne_gt]
  cases compare id.toInt id'.toInt <;> decide

/-- Users of the table in the order of their numbers: the first of them are
what a book lists. -/
theorem lists_take (hkey : PrimaryKey table) {users : List User} (hperm : users.Perm table)
    (hsorted : users.Pairwise Before) :
    Lists (book table) (users.take 100000) := by
  have hmem : ∀ {u}, u ∈ users.take 100000 → u ∈ table := fun hu =>
    hperm.mem_iff.mp (List.mem_of_mem_take hu)
  have hcut := List.take_append_drop 100000 users
  refine ⟨?_, hsorted.sublist (List.take_sublist _ _), List.length_take_le _ _, ?_⟩
  · intro u hu
    obtain ⟨uid, name⟩ := u
    cases uid with
    | none => exact absurd (List.mem_map.mpr ⟨_, hmem hu, rfl⟩) hkey.2
    | some id => exact ⟨id, rfl, (book_eq_some_iff hkey.1).mpr (hmem hu)⟩
  · intro id name hname
    have hin : ⟨some id, name⟩ ∈ users :=
      hperm.mem_iff.mpr ((book_eq_some_iff hkey.1).mp hname)
    rw [← hcut, List.mem_append] at hin
    rcases hin with htake | hdrop
    · exact .inl htake
    · have hlong : 0 < (users.drop 100000).length := List.length_pos_of_mem hdrop
      rw [List.length_drop] at hlong
      rw [← hcut, List.pairwise_append] at hsorted
      refine .inr ⟨?_, fun u hu => hsorted.2.2 u hu _ hdrop⟩
      rw [List.length_take]
      omega

/-- The selection of `list`: everybody. -/
def everybody : Selection := ⟨[], some "id", false, some 100000, some 0⟩

/-- The server sorts all rows and cuts the list at 100000. Two rows never have
the same number, so the order leaves no choice. -/
theorem list_book (hm : Keyed m fits) (hadmits : m.admits table = true)
    (h : Handles strict m rt table .list reply table') :
    m.admits table' = true ∧ (book table).Step rt fits .list reply (book table') := by
  obtain ⟨a, hperforms, rfl⟩ := h
  obtain ⟨hkey, -⟩ := (hm.admits table).mp hadmits
  obtain ⟨le, hle, hids⟩ := orderBy_id hm
  have hplain : everybody.Plain := by
    refine ⟨?_, ?_, ?_⟩ <;> rintro _ ⟨⟩ <;> decide
  have hselect := (performs_selectByExample (s := some everybody)
    fun s hs => Option.some.inj hs ▸ hplain).mp hperforms
  obtain ⟨r, hr, heq⟩ := hselect
  have hordering : ordering m everybody = some le := hle
  rcases hr with ⟨hnone, -⟩ | ⟨le', users, hle', hperm, hsorted, rfl⟩
  · rw [hordering] at hnone
    cases hnone
  · obtain rfl := Option.some.inj (hordering.symm.trans hle')
    cases heq
    have hall : table.filter (everybody.selects m) = table := by
      refine List.filter_eq_self.mpr fun u _ => decide_eq_true ?_
      exact .inr fun calls hcalls => nomatch hcalls
    rw [if_neg (show ¬ everybody.distinct = true by decide), hall] at hperm
    have hdistinct : users.Pairwise fun u v => u.id ≠ v.id :=
      List.pairwise_map.mp ((hperm.map User.id).nodup_iff.mpr hkey.1)
    have hmapped : (users.take 100000).map rowValue = (users.take 100000).map some := by
      refine map_rowValue fun u hu hnone => hkey.2 ?_
      exact List.mem_map.mpr ⟨u, hperm.mem_iff.mp (List.mem_of_mem_take hu), hnone⟩
    refine ⟨hadmits, rfl, users.take 100000, congrArg Reply.users hmapped,
      lists_take hkey hperm ?_⟩
    refine (hsorted.and hdistinct).imp fun hle id hid id' hid' => ?_
    refine Int32.lt_of_le_of_ne ((hids _ _ id id' hid hid').mp hle.1) fun hsame => hle.2 ?_
    rw [hid, hid', hsame]

/-- A request does with the table what it does with the book. -/
theorem handles_book (hrt : rt.Lawful) (hm : Keyed m fits) (hadmits : m.admits table = true)
    {request : Request} (h : Handles strict m rt table request reply table') :
    m.admits table' = true ∧ (book table).Step rt fits request reply (book table') := by
  cases request with
  | list => exact list_book hm hadmits h
  | selectIdwq id => exact selectIdwq_book hrt hm hadmits h
  | save id name => exact save_book hm hadmits h

end Requests

/-! ## 4. Histories -/

section Histories

variable {strict : Bool} {m : Mysql} {fits : User → Bool} {table table' : List User}

/-- **The controller is a book.** From a table that the server admits, through
any requests, one after another: what they are replied a book replies, that has
a name for a number at most once and keeps it. The server admits the table in
the end. -/
theorem history_book (hrt : rt.Lawful) (hm : Keyed m fits) (hadmits : m.admits table = true)
    {history : List (Request × Reply)} (h : History (Handles strict m rt) table history table') :
    m.admits table' = true ∧ History (Book.Step rt fits) (book table) history (book table') :=
  h.refines (fun _ _ _ _ hadmits hstep => handles_book hrt hm hadmits hstep) hadmits

/-- A VARCHAR(255) for the names. -/
def fitsColumn (u : User) : Bool := u.name.all fun name => (copyFromUtf8 name).length < 256

def keyMysql : Mysql :=
  cellMysql fun rows => PrimaryKey rows ∧ ∀ u ∈ rows, fitsColumn u = true

theorem keyed_keyMysql : Keyed keyMysql fitsColumn where
  admits := fun _ => decide_eq_true_iff
  orderBy := rfl
  short := by
    rintro u hfits name hname
    have hshort : ((copyFromUtf8 name).length < 256 : Bool) = true := by
      rw [fitsColumn, hname] at hfits
      exact hfits
    exact Nat.lt_trans (of_decide_eq_true hshort) (by decide)

/-- Ann is saved once. -/
theorem handles_ann : History (Handles true keyMysql (vectorRuntime fun _ => 1)) []
    [(.save 1 "ann", .text "true"), (.save 1 "bob", .error)] [ann] :=
  .cons ⟨.rows 1, (performs_insert ann).mpr rfl, rfl⟩
    (.cons ⟨.failed, (performs_insert ⟨some 1, some "bob"⟩).mpr rfl, rfl⟩ (.nil [ann]))

theorem history_book_ann : keyMysql.admits [ann] = true ∧
    History (Book.Step (vectorRuntime fun _ => 1) fitsColumn) (book [])
      [(.save 1 "ann", .text "true"), (.save 1 "bob", .error)] (book [ann]) :=
  history_book (vectorRuntime_lawful fun _ => 1) keyed_keyMysql (by decide) handles_ann

/-- What is known behind a request was known, or was saved by it. -/
theorem Book.Step.known_iff {b b' : Book} {request : Request} {reply : Reply}
    (h : b.Step rt fits request reply b') {id : Int32} {x : Option String} :
    b' id = some x ↔
      b id = some x ∨ ∃ name, x = some name ∧ (request, reply) = (.save id name, .text "true") := by
  have hsame : b' = b → (∀ name, (request, reply) ≠ (.save id name, .text "true")) →
      (b' id = some x ↔ b id = some x ∨
        ∃ name, x = some name ∧ (request, reply) = (.save id name, .text "true")) := by
    rintro rfl hnone
    refine (or_iff_left ?_).symm
    rintro ⟨name, -, heq⟩
    exact hnone name heq
  cases request with
  | list => exact hsame h.1 fun name heq => nomatch heq
  | selectIdwq key => exact hsame h.1 fun name heq => nomatch heq
  | save key name =>
      unfold Book.Step at h
      dsimp only at h
      by_cases hfree : b key = none ∧ fits ⟨some key, some name⟩ = true
      · rw [if_pos hfree] at h
        obtain ⟨rfl, rfl⟩ := h
        by_cases hkey : id = key
        · subst hkey
          rw [Book.write_self, hfree.1]
          constructor
          · intro hx
            exact .inr ⟨name, (Option.some.inj hx).symm, rfl⟩
          · rintro (hx | ⟨name', rfl, heq⟩)
            · cases hx
            · cases heq
              rfl
        · rw [Book.write_of_ne _ hkey]
          refine (or_iff_left ?_).symm
          rintro ⟨name', -, heq⟩
          cases heq
          exact hkey rfl
      · rw [if_neg hfree] at h
        obtain ⟨rfl, rfl⟩ := h
        exact hsame rfl fun name' heq => nomatch heq

/-- A book knows what it knew and what was saved since. -/
theorem known_iff {b b' : Book} {history : List (Request × Reply)}
    (h : History (Book.Step rt fits) b history b') {id : Int32} {x : Option String} :
    b' id = some x ↔ b id = some x ∨ ∃ name, x = some name ∧ Saved history id name := by
  induction h with
  | nil b =>
      refine (or_iff_left ?_).symm
      rintro ⟨name, -, hsaved⟩
      cases hsaved
  | cons first rest ih =>
      rw [ih, first.known_iff, or_assoc]
      refine or_congr Iff.rfl ?_
      rw [← exists_or]
      refine exists_congr fun name => ?_
      rw [← and_or_left, Saved, Saved, List.mem_cons]
      exact and_congr Iff.rfl (or_congr eq_comm Iff.rfl)

/-- What a request is replied in a history is what a book of the users known by
then replies. -/
theorem book_known (hrt : rt.Lawful) (hm : Keyed m fits) (hadmits : m.admits table = true)
    {before after : List (Request × Reply)} {request : Request} {reply : Reply}
    (h : History (Handles strict m rt) table (before ++ (request, reply) :: after) table') :
    ∃ b b' : Book, b.Step rt fits request reply b' ∧
      ∀ id name, b id = some name ↔ Known table before ⟨some id, name⟩ := by
  have hkey := ((hm.admits table).mp hadmits).1
  obtain ⟨-, hbook⟩ := h.refines
    (fun _ _ _ _ hadmits hstep => handles_book hrt hm hadmits hstep) hadmits
  obtain ⟨b, b', hbefore, hstep⟩ := hbook.at_call
  refine ⟨b, b', hstep, fun id name => ?_⟩
  rw [known_iff hbefore, book_eq_some_iff hkey.1, Known]
  refine or_congr Iff.rfl ?_
  constructor
  · rintro ⟨saved, rfl, hsaved⟩
    exact ⟨id, saved, rfl, hsaved⟩
  · rintro ⟨id', saved, heq, hsaved⟩
    cases heq
    exact ⟨saved, rfl, hsaved⟩

/-- **Every reply is what is known.** Users are known that the table had, or
that were saved since. A save is replied `true` once for each number, a name is
selected once it is known and by no other number, and the list misses users
only behind its hundred thousand. -/
theorem replies_known (hrt : rt.Lawful) (hm : Keyed m fits) (hadmits : m.admits table = true)
    {before after : List (Request × Reply)} {request : Request} {reply : Reply}
    (h : History (Handles strict m rt) table (before ++ (request, reply) :: after) table') :
    Replies rt fits (Known table before) reply request := by
  have hkey := ((hm.admits table).mp hadmits).1
  obtain ⟨b, b', hstep, hknown⟩ := book_known hrt hm hadmits h
  cases request with
  | list =>
      obtain ⟨-, users, rfl, hlists⟩ := hstep
      refine ⟨users, rfl, hlists.sorted, hlists.length_le, ?_, ?_⟩
      · intro u hu
        obtain ⟨id, hid, hname⟩ := hlists.known u hu
        obtain ⟨uid, name⟩ := u
        cases hid
        exact (hknown id name).mp hname
      · intro u hu
        obtain ⟨uid, name⟩ := u
        cases uid with
        | none =>
            rcases hu with htable | ⟨id, saved, heq, -⟩
            · exact absurd (List.mem_map.mpr ⟨_, htable, rfl⟩) hkey.2
            · cases heq
        | some id => exact hlists.rest id name ((hknown id name).mpr hu)
  | selectIdwq id =>
      rcases hstep.2 with ⟨name, bytes, hname, hreply, hsays⟩ | ⟨hnone, hreply⟩
      · exact .inl ⟨name, bytes, (hknown id _).mp hname, hreply, hsays⟩
      · exact .inr ⟨fun name hname => hnone name ((hknown id _).mpr hname), hreply⟩
  | save id name =>
      unfold Book.Step at hstep
      dsimp only at hstep
      by_cases hfits : fits ⟨some id, some name⟩ = true
      · rw [Replies, if_pos hfits]
        cases hid : b id with
        | none =>
            rw [if_pos ⟨hid, hfits⟩] at hstep
            refine .inr ⟨fun name' hname => ?_, hstep.1⟩
            rw [(hknown id name').mpr hname] at hid
            cases hid
        | some name' =>
            have htaken : ¬(b id = none ∧ fits ⟨some id, some name⟩ = true) := by
              rw [hid]
              exact fun h => nomatch h.1
            rw [if_neg htaken] at hstep
            exact .inl ⟨⟨name', (hknown id name').mp hid⟩, hstep.1⟩
      · rw [if_neg fun hfree => hfits hfree.2] at hstep
        rw [Replies, if_neg hfits]
        exact hstep.1

/-- The second of the saves is refused. -/
theorem replies_known_ann : Replies (vectorRuntime fun _ => 1) fitsColumn
    (Known [] [(.save 1 "ann", .text "true")]) .error (.save 1 "bob") :=
  replies_known (vectorRuntime_lawful fun _ => 1) keyed_keyMysql (by decide)
    (show History _ [] ([_] ++ (_, _) :: []) [ann] from handles_ann)

end Histories

end SpringDome.Controller
