/-
SpringDome.Mapper.SelectWindow — the rows `selectByExample` returns.

`Returns` is the whole way: the example is rendered, the text and the values
are read as a query, a server answers it from the table, and `BaseResultMap`
makes users of the answer, or null of a row with nothing in it. How the server
compares, and what it orders by, given the text behind ORDER BY, are parameters.
`returns_iff` says what is returned in terms of the rows: those the example
selects, in that order. Under an order that is total on the table they are one
list, unless a DISTINCT has to choose among rows that the server takes for the
same (`chooses_iff`).

The template has a window only if the example has a limit, so an offset alone
is left out. `selectByExample_window` adds what follows for pages.
-/
import SpringDome.Lib.SqlSelect
import SpringDome.Mapper.WellFormed

namespace SpringDome.Mapper

open SpringDome.Bean
open SpringDome.Lib.DynamicSql
open SpringDome.Lib.Sql

/-! ## 1. The query -/

/-- What the text of a select with an order reads as. -/
theorem query_selectByExample {cs : List Criteria} {pss : List (List (Predicate Obj))}
    {ex : UserExample} (h : AllPrint cs pss) (hored : ex.oredCriteria = cs.map some)
    (hcomplete : AllComplete (pss.filterMap toBlock)) {clause : String}
    (hclause : ex.orderByClause = some clause) (hplain : IsOrderText clause)
    (hlimit : ∀ n ∈ ex.limit, 0 ≤ n) (hoffset : ∀ n ∈ ex.offset, 0 ≤ n) (strict : Bool) :
    ∃ b, (MapperCall.selectByExample (some ex)).boundSql strict = .ok b ∧
      b.query = some ⟨ex.distinct, ["id", "name"], "t_user", filterOf (pss.filterMap toBlock),
        some (fixedTokens clause), windowOf ex.limit ex.offset⟩ := by
  obtain ⟨b, hb, hlex, hbindings⟩ := getBoundSql_selectByExample h hored strict
  obtain ⟨htext, hvalues, hnoLimit⟩ := fixedTokens_erase (V := Obj) hplain
  obtain ⟨ls, hls, hends, hwindow⟩ := limitClause_spliced hlimit hoffset
  have horder : Splices (orderLex (some clause))
      (.keyword .order :: .keyword .by :: fixedTokens clause) :=
    ⟨congrArg (fun us => Token.keyword .order :: .keyword .by :: us) htext, hvalues⟩
  refine ⟨b, hb, ?_⟩
  rw [BoundSql.query, readSql_of_lex hlex hbindings, hclause, (horder.append hls).bind,
    Option.map_some, Option.bind_some]
  have hfront : ∀ us : List (Token Obj), selectQuery (selectFront ex.distinct ++ us) =
      (whereClause us).bind fun x =>
        ((limitClause (orderText x.2).2).bind ended).bind fun window =>
          some ⟨ex.distinct, ["id", "name"], "t_user", x.1, (orderText x.2).1, window⟩ := by
    intro us
    cases ex.distinct <;> rfl
  have hrest : EndsFilter (.keyword .order :: .keyword .by :: fixedTokens clause ++ ls) := by
    intro t ht
    exact .inl (Option.some.inj ht).symm
  rw [List.append_assoc, hfront, whereTokens, whereClause_filterTokens hcomplete hrest,
    Option.bind_some]
  have horderText := orderText_order hnoLimit hends
  simp only [List.cons_append, horderText, hwindow, ended, Option.bind_some]

/-! ## 2. Rows and users -/

/-- The cells of a row of `t_user`. -/
def userCell (u : User) (column : String) : Obj :=
  if column = "id" then ofInteger u.id
  else if column = "name" then ofString u.name
  else .null

/-- The server with the table `t_user`. -/
def tUser (d : Dialect Obj) (orderBy : List (Token Obj) → Option (User → User → Bool)) :
    Server User Obj := ⟨d, userCell, orderBy⟩

/-- An INTEGER and a VARCHAR of a row, as Java reads them. -/
def toInteger : Obj → Option (Option Int32)
  | .null => some none
  | .int n => some (some (Int32.ofInt n))
  | _ => none

def toText : Obj → Option (Option String)
  | .null => some none
  | .str s => some (some s)
  | _ => none

/-- `getRowValue`: a row of nothing but NULL is null. -/
def rowValue (u : User) : Option User := if u.id.isNone && u.name.isNone then none else some u

/-- `BaseResultMap`. -/
def baseResultMap : List Obj → Option (Option User)
  | [id, name] => do
      let id ← toInteger id
      let name ← toText name
      some (rowValue ⟨id, name⟩)
  | _ => none

theorem baseResultMap_cells (u : User) :
    baseResultMap [ofInteger u.id, ofString u.name] = some (rowValue u) := by
  obtain ⟨id, name⟩ := u
  cases id <;> cases name <;> simp [baseResultMap, ofInteger, ofString, toInteger, toText]

theorem mapM_baseResultMap (users : List User) :
    (users.map fun u => [ofInteger u.id, ofString u.name]).mapM baseResultMap =
      some (users.map rowValue) := by
  induction users with
  | nil => rfl
  | cons u users ih => simp [List.mapM_cons, baseResultMap_cells, ih]

/-- The lists a call may return. -/
def Returns (strict : Bool) (srv : Server User Obj) (table : List User) (ex : UserExample)
    (users : List (Option User)) : Prop :=
  ∃ b q answer, (MapperCall.selectByExample (some ex)).boundSql strict = .ok b ∧
    b.query = some q ∧ q.table = "t_user" ∧ srv.Answers table q answer ∧
    answer.mapM baseResultMap = some users

/-! ## 3. What a call returns -/

instance (d : Dialect Obj) (row : String → Obj) (ored : List (List AndCall)) :
    Decidable (Selects d row ored) :=
  inferInstanceAs (Decidable ((∃ calls ∈ ored, (Criteria.build calls).isValid = true ∧
      ∀ call ∈ calls, call.accepted = true → call.predicate.eval d row = .holds) ∨
    ∀ calls ∈ ored, (Criteria.build calls).isValid = false))

/-- The server takes two rows for one. -/
def SameRow (d : Dialect Obj) (u v : User) : Prop :=
  d.rank (ofInteger u.id) (ofInteger v.id) = .eq ∧ d.rank (ofString u.name) (ofString v.name) = .eq

instance (d : Dialect Obj) (u v : User) : Decidable (SameRow d u v) :=
  inferInstanceAs (Decidable (_ = _ ∧ _ = _))

/-- It does so for no two different rows of the table. -/
def TellsApart (d : Dialect Obj) (table : List User) : Prop :=
  ∀ u ∈ table, ∀ v ∈ table, SameRow d u v ↔ u = v

/-- The users the example selects, if distinct one of those that are the same, in
order. -/
def Chooses (d : Dialect Obj) (ored : List (List AndCall)) (distinct : Bool)
    (le : User → User → Bool) (table users : List User) : Prop :=
  (if distinct then Distinct (SameRow d) (table.filter fun u => Selects d (userCell u) ored) users
    else users.Perm (table.filter fun u => Selects d (userCell u) ored)) ∧
    users.Pairwise fun u v => le u v = true

/-- These users, once each if distinct. -/
def selected (d : Dialect Obj) (ored : List (List AndCall)) (distinct : Bool)
    (le : User → User → Bool) (table : List User) : List User :=
  let passing := table.filter fun u => Selects d (userCell u) ored
  (if distinct then passing.dedup else passing).mergeSort le

/-- With an order that is total on the table they are one list, if the server
tells the rows apart where it has to. -/
theorem chooses_iff {d : Dialect Obj} {ored : List (List AndCall)} {distinct : Bool}
    {le : User → User → Bool} {table : List User} (htotal : TotallyOrders le table)
    (htells : distinct = true → TellsApart d table) (users : List User) :
    Chooses d ored distinct le table users ↔ users = selected d ored distinct le table := by
  have hpassing : ∀ u ∈ table.filter fun u => Selects d (userCell u) ored, u ∈ table :=
    fun u hu => (List.mem_filter.mp hu).1
  unfold Chooses selected
  cases distinct with
  | false =>
      exact (htotal.subset hpassing).eq_mergeSort_iff
  | true =>
      have hsame : ∀ u ∈ table.filter fun u => Selects d (userCell u) ored,
          ∀ v ∈ table.filter fun u => Selects d (userCell u) ored, SameRow d u v ↔ u = v :=
        fun u hu v hv => htells rfl u (hpassing u hu) v (hpassing v hv)
      refine Iff.trans (and_congr (distinct_iff hsame) Iff.rfl) ?_
      exact (htotal.subset fun u hu => hpassing u (List.mem_dedup.mp hu)).eq_mergeSort_iff

/-- The text behind ORDER BY stands for an order that is total on the table. -/
structure OrderedBy (srv : Server User Obj) (table : List User) (clause : String)
    (le : User → User → Bool) : Prop where
  plain : IsOrderText clause
  reads : srv.orderBy (fixedTokens clause) = some le
  total : TotallyOrders le table

/-- An example over these criteria with this order, and a window that is not
negative. -/
structure Windowed (ex : UserExample) (ored : List (List AndCall)) (clause : String) : Prop where
  criteria : ex.oredCriteria = ored.map fun calls => some (Criteria.build calls)
  clause : ex.orderByClause = some clause
  limit : ∀ n ∈ ex.limit, 0 ≤ n
  offset : ∀ n ∈ ex.offset, 0 ≤ n

section Answer

variable {d : Dialect Obj} {orderBy : List (Token Obj) → Option (User → User → Bool)}
  {table : List User} {ored : List (List AndCall)} {clause : String} {le : User → User → Bool}

/-- **What `selectByExample` returns.** -/
theorem returns_iff (hfilled : ∀ calls ∈ ored, ∀ call ∈ calls, listFilled call = true)
    (horder : OrderedBy (tUser d orderBy) table clause le) {ex : UserExample}
    (hex : Windowed ex ored clause) (strict : Bool) (result : List (Option User)) :
    Returns strict (tUser d orderBy) table ex result ↔
      ∃ users, Chooses d ored ex.distinct le table users ∧
        result = (windowed (windowOf ex.limit ex.offset) users).map rowValue := by
  have hored : ex.oredCriteria = (ored.map Criteria.build).map some := by
    rw [hex.criteria, List.map_map]
    rfl
  obtain ⟨b, hb, hquery⟩ := query_selectByExample (allPrint_build ored) hored
    (allComplete_build hfilled) hex.clause horder.plain hex.limit hex.offset strict
  set q : SelectQuery Obj := ⟨ex.distinct, ["id", "name"], "t_user",
    filterOf ((ored.map predicates).filterMap toBlock), some (fixedTokens clause),
    windowOf ex.limit ex.offset⟩ with hq
  have hmapped : ∀ users : List User,
      (users.map ((tUser d orderBy).values q)).mapM baseResultMap = some (users.map rowValue) :=
    mapM_baseResultMap
  have hpassing : (tUser d orderBy).passing q table =
      table.filter fun u => Selects d (userCell u) ored := by
    refine List.filter_congr ?_
    intro u _
    exact decide_eq_decide.mpr (keeps_iff_selects d (userCell u) ored)
  have hsame : (tUser d orderBy).Same q = SameRow d := by
    funext u v
    refine propext ⟨fun h => ⟨h "id" (by simp [hq]), h "name" (by simp [hq])⟩, ?_⟩
    rintro ⟨hid, hname⟩ column hcolumn
    rcases List.mem_pair.mp hcolumn with rfl | rfl
    · exact hid
    · exact hname
  have hchooses : ∀ users, Chooses d ored ex.distinct le table users ↔
      (tUser d orderBy).Picks q table users ∧ users.Pairwise fun u v => le u v = true := by
    intro users
    rw [Chooses, Server.Picks, hpassing, hsame]
  constructor
  · rintro ⟨b', q', answer, hb', hquery', -, ⟨le', users, hle, hpicks, hsorted, rfl⟩, hresult⟩
    obtain rfl := Except.ok.inj (hb.symm.trans hb')
    obtain rfl := Option.some.inj (hquery.symm.trans hquery')
    obtain rfl := Option.some.inj (horder.reads.symm.trans hle)
    rw [hmapped] at hresult
    exact ⟨users, (hchooses users).mpr ⟨hpicks, hsorted⟩, (Option.some.inj hresult).symm⟩
  · rintro ⟨users, husers, rfl⟩
    obtain ⟨hpicks, hsorted⟩ := (hchooses users).mp husers
    exact ⟨b, q, _, hb, hquery, rfl, ⟨le, users, horder.reads, hpicks, hsorted, rfl⟩, hmapped _⟩

/-! ## 4. Pages -/

/-- The example with the window of page `k`, of `n` rows. -/
def pageOf (ex : UserExample) (n : Int32) (k : Nat) : UserExample :=
  { ex with limit := some n, offset := some (Int32.ofNat (k * n.toInt.toNat)) }

theorem pageOf_windowed {ex : UserExample} (hex : Windowed ex ored clause) {n : Int32}
    (hn : 0 < n) {k : Nat} (hk : k * n.toInt.toNat < 2 ^ 31) :
    Windowed (pageOf ex n k) ored clause ∧
      windowOf (pageOf ex n k).limit (pageOf ex n k).offset =
        some ⟨k * n.toInt.toNat, n.toInt.toNat⟩ := by
  have hoffset : (Int32.ofNat (k * n.toInt.toNat)).toInt = (k * n.toInt.toNat : Nat) :=
    Int32.toInt_ofNat_of_lt hk
  refine ⟨⟨hex.criteria, hex.clause, ?_, ?_⟩, ?_⟩
  · rintro _ ⟨⟩
    exact Int32.le_of_lt hn
  · rintro _ ⟨⟩
    rw [Int32.le_iff_toInt_le, hoffset]
    exact Int.natCast_nonneg _
  · show some (Window.mk (Int32.ofNat (k * n.toInt.toNat)).toInt.toNat n.toInt.toNat) = _
    rw [hoffset, Int.toNat_natCast]

/-- Without a window everything is returned. -/
theorem unwindowed {ex : UserExample} (hex : Windowed ex ored clause) :
    Windowed { ex with limit := none, offset := none } ored clause :=
  ⟨hex.criteria, hex.clause, (fun _ h => by cases h), fun _ h => by cases h⟩

/-- **The select window.** With a limit the call returns the rows the example
selects, the first `offset` left out, up to `limit`; without one it returns
them all. They are one list, and pages put together are what is returned without
a window, as far as they go, unless DISTINCT has to choose. -/
theorem selectByExample_window (hfilled : ∀ calls ∈ ored, ∀ call ∈ calls, listFilled call = true)
    (horder : OrderedBy (tUser d orderBy) table clause le) {ex : UserExample}
    (hex : Windowed ex ored clause) (strict : Bool) :
    (∀ result, Returns strict (tUser d orderBy) table ex result ↔
      ∃ users, Chooses d ored ex.distinct le table users ∧ result =
        (match ex.limit with
        | none => users
        | some limit =>
            (users.drop (ex.offset.getD 0).toInt.toNat).take limit.toInt.toNat).map rowValue) ∧
    ((ex.distinct = true → TellsApart d table) →
      (∀ users, Chooses d ored ex.distinct le table users ↔
        users = selected d ored ex.distinct le table) ∧
      ∀ n : Int32, 0 < n → ∀ (m : Nat) (pages : Nat → List (Option User))
        (all : List (Option User)), (∀ k < m, k * n.toInt.toNat < 2 ^ 31) →
        (∀ k < m, Returns strict (tUser d orderBy) table (pageOf ex n k) (pages k)) →
        Returns strict (tUser d orderBy) table { ex with limit := none, offset := none } all →
        (List.range m).flatMap pages = all.take (m * n.toInt.toNat) ∧
          (all.length ≤ m * n.toInt.toNat → (List.range m).flatMap pages = all)) := by
  constructor
  · intro result
    rw [returns_iff hfilled horder hex]
    cases ex.limit with
    | none => rfl
    | some limit => rfl
  · intro htells
    have hone := @chooses_iff d ored _ _ _ horder.total htells
    refine ⟨hone, ?_⟩
    intro n hn m pages all hfits hpages hall
    obtain ⟨users, husers, rfl⟩ :=
      (returns_iff hfilled horder (unwindowed hex) strict all).mp hall
    have hpage : ∀ k ∈ List.range m, pages k =
        ((users.map rowValue).drop (k * n.toInt.toNat)).take n.toInt.toNat := by
      intro k hk
      have hlt := List.mem_range.mp hk
      obtain ⟨hwindowed, hwindow⟩ := pageOf_windowed hex hn (hfits k hlt)
      obtain ⟨users', husers', hpage⟩ :=
        (returns_iff hfilled horder hwindowed strict _).mp (hpages k hlt)
      rw [hpage, (hone users').mp husers', ← (hone users).mp husers, hwindow, windowed,
        List.map_take, List.map_drop]
    have htake : (List.range m).flatMap pages =
        (users.map rowValue).take (m * n.toInt.toNat) := by
      rw [List.flatMap_congr hpage, flatten_pages]
    refine ⟨htake, ?_⟩
    intro hlength
    rw [htake]
    exact List.take_of_length_le hlength

end Answer

/-- Cells of one type, compared. -/
def cellDialect : Dialect Obj where
  isNull := Obj.isNull
  compare
    | .int m, .int n => Ord.compare m n
    | .str s, .str t => Ord.compare s t
    | _, _ => .eq
  like
    | .str s, .str t => s == t
    | _, _ => false

/-- A server that orders by columns. -/
def cellServer : Server User Obj := tUser cellDialect (columnOrder cellDialect userCell)

def ann : User := ⟨some 1, some "ann"⟩

def bob : User := ⟨some 2, some "bob"⟩

/-- The order of `order by id`. -/
def idOrder (a b : User) : Bool :=
  [OrderItem.mk "id" none].foldr (fun i o => (i.rank cellDialect userCell a b).then o) .eq != .gt

theorem orderedBy_id (table : List User) (h : ∀ u ∈ table, u = ann ∨ u = bob) :
    OrderedBy cellServer table "id" idOrder where
  plain := by decide
  reads := rfl
  total := by
    have hpair : TotallyOrders idOrder [ann, bob] := ⟨by decide, by decide, by decide⟩
    exact hpair.subset fun u hu => by simpa using h u hu

/-- The second page of one row, of users with an id. -/
def secondPage : UserExample :=
  (Session.run [.setOrderByClause (some "id"), .createCriteria, .and 0 (.nullary .andIdIsNotNull),
    .setDistinct true, .setLimit (some 1), .setOffset (some 1)]).toExample

theorem secondPage_returns : Returns true cellServer [bob, ann, bob] secondPage [some bob] := by
  have horder := orderedBy_id [bob, ann, bob] (by simp)
  have hex : Windowed secondPage [[.nullary .andIdIsNotNull]] "id" :=
    ⟨rfl, rfl, by rintro n ⟨⟩; decide, by rintro n ⟨⟩; decide⟩
  have htells : TellsApart cellDialect [bob, ann, bob] := by unfold TellsApart; decide
  have hsorted : selected cellDialect [[.nullary .andIdIsNotNull]] true idOrder [bob, ann, bob] =
      [ann, bob] := by
    have hrows : TotallyOrders idOrder [ann, bob] := ⟨by decide, by decide, by decide⟩
    exact (hrows.eq_mergeSort_iff.mp ⟨.refl _, by decide⟩).symm
  obtain ⟨hreturns, hone⟩ := selectByExample_window (by decide) horder hex true
  exact (hreturns [some bob]).mpr ⟨[ann, bob], ((hone fun _ => htells).1 _).mpr hsorted.symm, rfl⟩

/-! What differs from a window of rows: an offset without a limit, a null criteria,
a row of nulls, and names that the server takes for the same. -/

def offsetOnly : UserExample :=
  (Session.run [.setOrderByClause (some "id"), .setOffset (some 1)]).toExample

def byId : UserExample := (Session.run [.setOrderByClause (some "id")]).toExample

def distinctByName : UserExample :=
  (Session.run [.setOrderByClause (some "binary name"), .setDistinct true]).toExample

def nobody : User := ⟨none, none⟩

def capitalAnn : User := ⟨some 1, some "Ann"⟩

/-- Letters are compared without their case. -/
def foldDialect : Dialect Obj where
  isNull := Obj.isNull
  compare
    | .int m, .int n => Ord.compare m n
    | .str s, .str t => Ord.compare (s.toList.map Char.toLower) (t.toList.map Char.toLower)
    | _, _ => .eq
  like := cellDialect.like

/-- The order of `order by binary name`: capitals come first. -/
def binaryOrder (u v : User) : Bool := Ord.compare (u.name.getD "") (v.name.getD "") != .gt

def foldServer : Server User Obj := tUser foldDialect fun _ => some binaryOrder

theorem orderedBy_binary : OrderedBy foldServer [ann, capitalAnn] "binary name" binaryOrder where
  plain := by decide
  reads := rfl
  total := ⟨by decide, by decide, by decide⟩

/-- Each of the two may be answered, and may be another one in the next call. -/
theorem chooses_either {u : User} (hu : u = ann ∨ u = capitalAnn) :
    Chooses foldDialect [] true binaryOrder [ann, capitalAnn] [u] := by
  have hall : [ann, capitalAnn].filter (fun u => Selects foldDialect (userCell u) []) =
      [ann, capitalAnn] := by simp [Selects]
  unfold Chooses
  rw [if_pos rfl, hall]
  refine ⟨⟨?_, List.pairwise_singleton _ _, ?_⟩, List.pairwise_singleton _ _⟩
  · rintro v hv
    rw [List.mem_singleton.mp hv]
    simpa using hu
  · rcases hu with rfl | rfl <;> decide

/-- The offset alone drops nothing; a null criteria returns nothing; a row of
nulls is returned as null; and with names that the server takes for the same the
pages need not be what is returned without a window. -/
theorem offset_without_limit :
    Returns true cellServer [ann] offsetOnly [some ann] ∧
      ¬ Returns true cellServer [ann] offsetOnly [] ∧
      (∀ users, ¬ Returns true cellServer [ann]
        (Session.run [.setOrderByClause (some "id"), .orAdd none]).toExample users) ∧
      Returns true cellServer [nobody] byId [none] ∧
      Returns true foldServer [ann, capitalAnn] (pageOf distinctByName 1 0) [some ann] ∧
      Returns true foldServer [ann, capitalAnn] (pageOf distinctByName 1 1) [] ∧
      Returns true foldServer [ann, capitalAnn] distinctByName [some capitalAnn] := by
  have hann : OrderedBy cellServer [ann] "id" idOrder := orderedBy_id [ann] (by simp)
  have hnobody : OrderedBy cellServer [nobody] "id" idOrder :=
    ⟨by decide, rfl, ⟨by decide, by decide, by decide⟩⟩
  have hchooses : ∀ u : User, Chooses cellDialect [] false idOrder [u] [u] := by
    intro u
    refine ⟨?_, List.pairwise_singleton _ _⟩
    simp [Selects]
  have hoffset : Windowed offsetOnly [] "id" :=
    ⟨rfl, rfl, by rintro n ⟨⟩, by rintro n ⟨⟩; decide⟩
  have hbyId : Windowed byId [] "id" := ⟨rfl, rfl, by rintro n ⟨⟩, by rintro n ⟨⟩⟩
  have hdistinct : Windowed distinctByName [] "binary name" :=
    ⟨rfl, rfl, by rintro n ⟨⟩, by rintro n ⟨⟩⟩
  have hpage : ∀ k < 2, Windowed (pageOf distinctByName 1 k) [] "binary name" :=
    fun k hk => (pageOf_windowed hdistinct (by decide)
      (by show k * 1 < 2 ^ 31; omega)).1
  have hann' := chooses_either (.inl rfl)
  have hcapital := chooses_either (.inr rfl)
  refine ⟨?_, ?_, ?_, ?_, ?_, ?_, ?_⟩
  · exact (returns_iff (by decide) hann hoffset true _).mpr ⟨[ann], hchooses ann, rfl⟩
  · intro h
    obtain ⟨users, ⟨hperm, -⟩, hnil⟩ := (returns_iff (by decide) hann hoffset true _).mp h
    have hall : [ann].filter (fun u => Selects cellDialect (userCell u) []) = [ann] := by
      simp [Selects]
    have husers : users.Perm [ann] := hall ▸ hperm
    rw [List.perm_singleton.mp husers] at hnil
    cases hnil
  · rintro users ⟨b, q, answer, hb, -⟩
    cases hb
  · exact (returns_iff (by decide) hnobody hbyId true _).mpr ⟨[nobody], hchooses nobody, rfl⟩
  · exact (returns_iff (by decide) orderedBy_binary (hpage 0 (by decide)) true _).mpr
      ⟨[ann], hann', rfl⟩
  · exact (returns_iff (by decide) orderedBy_binary (hpage 1 (by decide)) true _).mpr
      ⟨[ann], hann', rfl⟩
  · exact (returns_iff (by decide) orderedBy_binary hdistinct true _).mpr
      ⟨[capitalAnn], hcapital, rfl⟩

end SpringDome.Mapper
