/-
SpringDome.Redis.TokenClients — `setKsToken` and `getKsToken` of one
(player, game) pair from many clients at once.

Each client makes one call; a command is one atomic step of the server, and
the clock stands still. To its callers the token store should be a register
(`tokenRegister`): a set writes, a get compares.

A set that finds the key deletes it before it writes, and a get that looks
in between answers false although some token was valid all the time:
`get_in_window` is such a run. That window is the only flaw.
`tokenClients_linearizable` takes every run in which no get looks at a
missing key while a set is in its window, and gives the order of the calls.
The proof refines the machine `atomicObject`: a set commits with its SETEX, a
get with its last command.
-/
import SpringDome.Lib.Linearizability
import SpringDome.Redis.TokenTheorems

namespace SpringDome.Redis

open SpringDome.Lib
open SpringDome.Lib.RedisStore
open RedisService

variable {S : Type} {N : Nat}

/-! ## 1. Clients -/

inductive TokenCall where
  | set (player_token : Int64) (seconds : {s : Int32 // 0 < s.toInt})
  | get (player_token : Int64)

def TokenCall.isGet : TokenCall → Bool
  | .set .. => false
  | .get _ => true

def TokenCall.program (player_id : Int32) (game_key : String) : TokenCall → RedisM S Bool
  | .set player_token seconds => setKsToken player_id player_token seconds.1 game_key
  | .get player_token => getKsToken player_id player_token game_key

/-- A client: before its call, with `sent` commands done and the rest of its
program to go, or answered. -/
inductive Client (S : Type) where
  | outside
  | running (sent : Nat) (rest : RedisM S Bool)
  | returned

def Client.inProgress : Client S → Bool
  | .running .. => true
  | _ => false

/-- Two commands are done and one is to come: only a set that has deleted
the key and not yet written it gets there. -/
def Client.inWindow : Client S → Bool
  | .running sent (.call ..) => sent == 2
  | _ => false

inductive ClientAct where
  | invoke
  | command
  | respond (b : Bool)
  deriving DecidableEq, Repr

structure Clients (S : Type) (N : Nat) where
  redis : Store S
  client : Fin N → Client S

/-- No call is in progress. -/
def Clients.Quiescent (s : Clients S N) : Prop := ∀ i, (s.client i).inProgress = false

/-- What the callers see of a run. -/
def ClientAct.event? : Fin N × ClientAct → Option (Event (Fin N) Bool)
  | (i, .invoke) => some (.invoke i)
  | (_, .command) => none
  | (i, .respond b) => some (.respond i b)

def ClientAct.history (run : List (Fin N × ClientAct)) : List (Event (Fin N) Bool) :=
  run.filterMap ClientAct.event?

section Machine

variable [Add S] [LE S] [DecidableLE S]

def Clients.step (player_id : Int32) (game_key : String) (calls : Fin N → TokenCall)
    (s : Clients S N) : Fin N × ClientAct → Option (Clients S N)
  | (i, .invoke) =>
      match s.client i with
      | .outside =>
          some { s with client :=
            Function.update s.client i (.running 0 ((calls i).program player_id game_key)) }
      | _ => none
  | (i, .command) =>
      match s.client i with
      | .running sent (.call op k) =>
          some ⟨op.serve s.redis, Function.update s.client i
            (.running (sent + 1) (k (op.util.onStore .served s.redis).2))⟩
      | _ => none
  | (i, .respond b) =>
      match s.client i with
      | .running _ (.ret b') =>
          if b = b' then some { s with client := Function.update s.client i .returned } else none
      | _ => none

def tokenClients (player_id : Int32) (game_key : String) (calls : Fin N → TokenCall)
    (redis : Store S) : Machine (Clients S N) (Fin N × ClientAct) where
  init := ⟨redis, fun _ => .outside⟩
  step := Clients.step player_id game_key calls

end Machine

/-! ## 2. The register -/

/-- What the token store is for: the text stored last. -/
def tokenRegister (text : Option String) : Sequential (Option String) TokenCall Bool where
  init := text
  apply v
    | .set player_token _ => (some (tokenText player_token), true)
    | .get player_token => (v, decide (v = some (tokenText player_token)))

/-- Some order of the calls explains the answers of the run, and the text
stored once no call is in progress. -/
def LinearizableRun (key : String) (calls : Fin N → TokenCall) (redis : Store S)
    (run : List (Fin N × ClientAct)) (s : Clients S N) : Prop :=
  ∃ order, (tokenRegister (textAt redis key)).Linearizes calls (ClientAct.history run) order ∧
    (s.Quiescent → textAt s.redis key = (tokenRegister (textAt redis key)).after calls order)

/-- If the store holds a token and every set writes the same, every get for
it answers true. -/
def KeepsAnswering (key : String) (calls : Fin N → TokenCall) (redis : Store S)
    (run : List (Fin N × ClientAct)) : Prop :=
  ∀ player_token, textAt redis key = some (tokenText player_token) →
    (∀ i t seconds, .invoke i ∈ ClientAct.history run → calls i = .set t seconds →
      t = player_token) →
    ∀ i b, calls i = .get player_token → .respond i b ∈ ClientAct.history run → b = true

/-- Sets of one token keep the register at this token. -/
theorem after_tokenRegister {text : String} {calls : Fin N → TokenCall} {order : List (Fin N)}
    (hsets : ∀ i ∈ order, ∀ t seconds, calls i = .set t seconds → tokenText t = text) :
    (tokenRegister (some text)).after calls order = some text := by
  refine Sequential.after_induction (fun v => v = some text) rfl ?_
  intro i hi v hv
  cases hcall : calls i with
  | set t seconds => simp [tokenRegister, hsets i hi t seconds hcall]
  | get t => exact hv

theorem LinearizableRun.keepsAnswering {key : String} {calls : Fin N → TokenCall}
    {redis : Store S} {run : List (Fin N × ClientAct)} {s : Clients S N}
    (h : LinearizableRun key calls redis run s) : KeepsAnswering key calls redis run := by
  intro player_token htext hsets i b hget hrespond
  obtain ⟨order, hlin, -⟩ := h
  obtain ⟨before, later, horder, hb⟩ := hlin.answers i b hrespond
  have hbefore : (tokenRegister (textAt redis key)).after calls before =
      some (tokenText player_token) := by
    rw [htext]
    refine after_tokenRegister ?_
    intro j hj t seconds hcall
    have hinvoked := hlin.invoked j (by simp [horder, hj])
    rw [hsets j t seconds hinvoked hcall]
  rw [hbefore, hget] at hb
  simpa [tokenRegister] using hb.symm

/-! ## 3. The refinement -/

/-- Where a client is in its program, and where its call is on the register. -/
inductive Position (key : String) : TokenCall → Client S → Phase Bool → Prop where
  | outside (c : TokenCall) : Position key c .outside .outside
  | setExists (t : Int64) (seconds : {s : Int32 // 0 < s.toInt}) :
      Position key (.set t seconds) (.running 0 (.call (.exists_ key) fun present =>
        if present then .call (.delete key) fun _ => .call (.setexLong key t seconds.1) .ret
        else .call (.setexLong key t seconds.1) .ret)) .pending
  | setDelete (t : Int64) (seconds : {s : Int32 // 0 < s.toInt}) :
      Position key (.set t seconds)
        (.running 1 (.call (.delete key) fun _ => .call (.setexLong key t seconds.1) .ret)) .pending
  | setSetex (t : Int64) (seconds : {s : Int32 // 0 < s.toInt}) (sent : Nat) :
      Position key (.set t seconds) (.running sent (.call (.setexLong key t seconds.1) .ret))
        .pending
  | getExists (t : Int64) :
      Position key (.get t) (.running 0 (.call (.exists_ key) fun present =>
        if present then
          .call (.getValue key) fun value => .ret (decide (value = some (tokenText t)))
        else .ret false)) .pending
  | getValue (t : Int64) :
      Position key (.get t)
        (.running 1 (.call (.getValue key) fun value =>
          .ret (decide (value = some (tokenText t))))) .pending
  | answered (c : TokenCall) (sent : Nat) (b : Bool) :
      Position key c (.running sent (.ret b)) (.committed b)
  | returned (c : TokenCall) : Position key c .returned .returned

/-- The clients and the register agree: the text under a present key is the
register's, and a key is missing only while the register is empty or some set
is in its window. -/
structure Refines (key : String) (calls : Fin N → TokenCall) (s : Clients S N)
    (t : AtomicState (Fin N) Bool (Option String)) : Prop where
  position : ∀ i, Position key (calls i) (s.client i) (t.phase i)
  present : s.redis.find key ≠ none → textAt s.redis key = t.value
  missing : s.redis.find key = none → t.value = none ∨ ∃ i, (s.client i).inWindow = true

/-- The step is not a command of a get at a missing key while some set is in
its window. -/
def MissesWindow (key : String) (calls : Fin N → TokenCall) (s : Clients S N) :
    Fin N × ClientAct → Prop
  | (i, .command) => (calls i).isGet = true → s.redis.find key = none →
      ∀ j, (s.client j).inWindow = false
  | _ => True

instance (key : String) (calls : Fin N → TokenCall) (s : Clients S N) :
    ∀ a, Decidable (MissesWindow key calls s a)
  | (i, .command) => inferInstanceAs (Decidable ((calls i).isGet = true →
      s.redis.find key = none → ∀ j, (s.client j).inWindow = false))
  | (_, .invoke) => isTrue trivial
  | (_, .respond _) => isTrue trivial

section Refinement

variable {key : String} {calls : Fin N → TokenCall}

theorem position_program (player_id : Int32) (game_key : String) (c : TokenCall) :
    Position (S := S) (tokenKey player_id game_key) c (.running 0 (c.program player_id game_key))
      .pending := by
  cases c with
  | set t seconds =>
      rw [TokenCall.program, setKsToken_eq]
      exact .setExists t seconds
  | get t =>
      rw [TokenCall.program, getKsToken_eq]
      exact .getExists t

theorem Position.phase_of_outside {c : TokenCall} {p : Phase Bool}
    (h : Position (S := S) key c .outside p) : p = .outside := by
  cases h; rfl

theorem Position.phase_of_ret {c : TokenCall} {sent : Nat} {b : Bool} {p : Phase Bool}
    (h : Position (S := S) key c (.running sent (.ret b)) p) : p = .committed b := by
  cases h; rfl

/-- Moving one client, and its call, keeps the other positions. -/
theorem position_update {s : Fin N → Client S} {t : Fin N → Phase Bool}
    (h : ∀ j, Position key (calls j) (s j) (t j)) {i : Fin N} {c : Client S} {p : Phase Bool}
    (hi : Position key (calls i) c p) (j : Fin N) :
    Position key (calls j) (Function.update s i c j) (Function.update t i p j) := by
  by_cases hj : j = i
  · subst hj; simpa using hi
  · simpa [hj] using h j

/-- A client that leaves no window leaves the windows of the others. -/
theorem exists_inWindow_update {s : Fin N → Client S} {i : Fin N} (c : Client S)
    (hi : (s i).inWindow = false) (h : ∃ j, (s j).inWindow = true) :
    ∃ j, (Function.update s i c j).inWindow = true := by
  obtain ⟨j, hj⟩ := h
  have hne : j ≠ i := by
    rintro rfl
    rw [hi] at hj
    cases hj
  exact ⟨j, by simpa [hne] using hj⟩

theorem textAt_eq_none {s : Store S} {k : String} (h : s.find k = none) : textAt s k = none := by
  simp [textAt, h]

theorem textAt_congr {s s' : Store S} {k : String} (h : s'.find k = s.find k) :
    textAt s' k = textAt s k := by
  simp only [textAt, h]

/-- The abstract side of one step: the labels it takes, and where it gets. -/
def Simulates (key : String) (calls : Fin N → TokenCall) (text : Option String)
    (a : Fin N × ClientAct) (s' : Clients S N) (t : AtomicState (Fin N) Bool (Option String)) :
    Prop :=
  ∃ acts t', (atomicObject (tokenRegister text) calls).exec t acts = some t' ∧
    AtomicAct.history acts = (ClientAct.event? a).toList ∧ Refines key calls s' t'

variable {text : Option String} {s s' : Clients S N}
  {t : AtomicState (Fin N) Bool (Option String)}

/-- A command that reads, and after which the client has more to do. -/
theorem simulates_silent (h : Refines key calls s t) {i : Fin N} {redis : Store S}
    {c : Client S} (hfind : redis.find key = s.redis.find key)
    (hwindow : (s.client i).inWindow = false) (hphase : t.phase i = .pending)
    (hi : Position key (calls i) c .pending) :
    Simulates key calls text (i, .command) ⟨redis, Function.update s.client i c⟩ t := by
  refine ⟨[], t, rfl, rfl, ?_, ?_, ?_⟩
  · have hsame : t.phase = Function.update t.phase i .pending := by
      rw [← hphase, Function.update_eq_self]
    rw [hsame]
    exact position_update h.position hi
  · intro hpresent
    rw [textAt_congr hfind]
    exact h.present (hfind ▸ hpresent)
  · intro hmissing
    exact (h.missing (hfind ▸ hmissing)).imp_right (exists_inWindow_update c hwindow)

/-- The last command of a get: its call commits with the answer the register
gives. -/
theorem simulates_get (h : Refines key calls s t) {i : Fin N} {redis : Store S} {token : Int64}
    {sent : Nat} {b : Bool} (hfind : redis.find key = s.redis.find key)
    (hwindow : (s.client i).inWindow = false) (hphase : t.phase i = .pending)
    (hcall : calls i = .get token) (hb : decide (t.value = some (tokenText token)) = b) :
    Simulates key calls text (i, .command)
      ⟨redis, Function.update s.client i (.running sent (.ret b))⟩ t := by
  refine ⟨[.commit i], ⟨t.value, Function.update t.phase i (.committed b)⟩, ?_, rfl, ?_, ?_, ?_⟩
  · simp [Machine.exec, atomicObject, hphase, hcall, tokenRegister, hb]
  · exact position_update h.position (.answered _ _ _)
  · intro hpresent
    rw [textAt_congr hfind]
    exact h.present (hfind ▸ hpresent)
  · intro hmissing
    exact (h.missing (hfind ▸ hmissing)).imp_right (exists_inWindow_update _ hwindow)

/-- Outside the windows the register has the text under the key. -/
theorem Refines.value_eq (h : Refines key calls s t)
    (hclear : s.redis.find key = none → ∀ j, (s.client j).inWindow = false) :
    t.value = textAt s.redis key := by
  by_cases hmissing : s.redis.find key = none
  · rw [textAt_eq_none hmissing]
    obtain hvalue | ⟨j, hj⟩ := h.missing hmissing
    · exact hvalue
    · rw [hclear hmissing j] at hj
      cases hj
  · exact (h.present hmissing).symm

variable [Add S] [LE S] [DecidableLE S]

/-- What a command step did. -/
theorem step_command {player_id : Int32} {game_key : String} {i : Fin N}
    (hstep : s.step player_id game_key calls (i, .command) = some s') :
    ∃ sent op k, s.client i = .running sent (.call op k) ∧
      s' = ⟨op.serve s.redis, Function.update s.client i
        (.running (sent + 1) (k (op.util.onStore .served s.redis).2))⟩ := by
  simp only [Clients.step] at hstep
  split at hstep
  · cases hstep
    exact ⟨_, _, _, ‹_›, rfl⟩
  · cases hstep

/-- Every command outside the windows is a step of the register, or none. -/
theorem simulates_command (h : Refines key calls s t) {player_id : Int32} {game_key : String}
    {i : Fin N} (hstep : s.step player_id game_key calls (i, .command) = some s')
    (hmiss : MissesWindow key calls s (i, .command)) :
    Simulates key calls text (i, .command) s' t := by
  obtain ⟨sent, op, k, hclient, rfl⟩ := step_command hstep
  have hpos := h.position i
  have hsame := s.redis.indistinct_put_find key
  rw [hclient] at hpos
  generalize hcall : calls i = c at hpos
  generalize hphase : t.phase i = p at hpos
  cases hpos with
  | setExists token seconds =>
      refine simulates_silent h (hsame.2 key) (by rw [hclient]; rfl) hphase ?_
      rw [hcall, exists_served]
      dsimp only
      split
      · exact .setDelete token seconds
      · exact .setSetex token seconds 1
  | setDelete token seconds =>
      -- the window opens
      have hgone : ((Operation.delete key).serve s.redis).find key = none :=
        s.redis.find_put_self key none
      refine ⟨[], t, rfl, rfl, ?_, ?_, ?_⟩
      · have heq : t.phase = Function.update t.phase i .pending := by
          rw [← hphase, Function.update_eq_self]
        rw [heq]
        exact position_update h.position (hcall ▸ .setSetex token seconds 2)
      · intro hpresent
        exact absurd hgone hpresent
      · intro _
        exact Or.inr ⟨i, by simp [Client.inWindow]⟩
  | setSetex token seconds sent =>
      -- the set commits
      have hserve : (RedisUtil.setexLong key token seconds.1).onStore .served s.redis =
          (s.redis.put key (some (tokenEntry s.redis token seconds.1)), true) := by
        rw [setexLong_served, if_pos seconds.2]
      have hfind : (s.redis.put key (some (tokenEntry s.redis token seconds.1))).find key =
          some (tokenEntry s.redis token seconds.1) := by
        simp [Option.filter, tokenEntry_live s.redis token seconds.2]
      rw [Operation.serve, hserve]
      refine ⟨[.commit i], ⟨some (tokenText token), Function.update t.phase i (.committed true)⟩,
        ?_, rfl, position_update h.position (.answered _ _ _), ?_, ?_⟩
      · simp [Machine.exec, atomicObject, hphase, hcall, tokenRegister]
      · intro _
        simp only [textAt]
        rw [hfind]
        rfl
      · intro hmissing
        rw [hfind] at hmissing
        cases hmissing
  | getExists token =>
      have hwindow : (s.client i).inWindow = false := by rw [hclient]; rfl
      rw [exists_served]
      cases hfound : s.redis.find key with
      | none =>
          have hvalue := h.value_eq (hmiss (by rw [hcall]; rfl))
          rw [textAt_eq_none hfound] at hvalue
          exact simulates_get h (hsame.2 key) hwindow hphase hcall (by simp [hvalue])
      | some e =>
          exact simulates_silent h (hsame.2 key) hwindow hphase (hcall ▸ .getValue token)
  | getValue token =>
      obtain ⟨redis, hredis, hget⟩ := getValue_served s.redis key
      rw [Operation.serve, hget]
      exact simulates_get h (hredis.2 key) (by rw [hclient]; rfl) hphase hcall
        (by rw [h.value_eq (hmiss (by rw [hcall]; rfl))])

/-- **One step.** Outside the windows every step of the clients is matched by
the register. -/
theorem simulates_step (h : Refines key calls s t) {player_id : Int32} {game_key : String}
    (hkey : tokenKey player_id game_key = key) {a : Fin N × ClientAct}
    (hstep : s.step player_id game_key calls a = some s') (hmiss : MissesWindow key calls s a) :
    Simulates key calls text a s' t := by
  obtain ⟨i, act⟩ := a
  cases act with
  | command => exact simulates_command h hstep hmiss
  | invoke =>
      simp only [Clients.step] at hstep
      split at hstep
      · rename_i hclient
        cases hstep
        have hphase := (hclient ▸ h.position i).phase_of_outside
        refine ⟨[.invoke i], ⟨t.value, Function.update t.phase i .pending⟩, ?_, rfl,
          position_update h.position (hkey ▸ position_program player_id game_key (calls i)),
          h.present, ?_⟩
        · simp [Machine.exec, atomicObject, hphase]
        · intro hmissing
          exact (h.missing hmissing).imp_right
            (exists_inWindow_update _ (by rw [hclient]; rfl))
      · cases hstep
  | respond b =>
      simp only [Clients.step] at hstep
      split at hstep
      · rename_i hclient
        split at hstep
        · rename_i hb
          subst hb
          cases hstep
          have hphase := (hclient ▸ h.position i).phase_of_ret
          refine ⟨[.respond i b], ⟨t.value, Function.update t.phase i .returned⟩, ?_, rfl,
            position_update h.position (.returned _), h.present, ?_⟩
          · simp [Machine.exec, atomicObject, hphase]
          · intro hmissing
            exact (h.missing hmissing).imp_right
              (exists_inWindow_update _ (by rw [hclient]; rfl))
        · cases hstep
      · cases hstep

/-- The register keeps up with every run outside the windows. -/
theorem refines_of_exec {player_id : Int32} {game_key : String} {redis : Store S} :
    ∀ run (s : Clients S N), (tokenClients player_id game_key calls redis).Along
      (MissesWindow (tokenKey player_id game_key) calls)
      (tokenClients player_id game_key calls redis).init run →
    (tokenClients player_id game_key calls redis).exec
      (tokenClients player_id game_key calls redis).init run = some s →
    ∃ acts t, (atomicObject (tokenRegister (textAt redis (tokenKey player_id game_key)))
        calls).exec (atomicObject (tokenRegister (textAt redis (tokenKey player_id game_key)))
          calls).init acts = some t ∧
      AtomicAct.history acts = ClientAct.history run ∧
      Refines (tokenKey player_id game_key) calls s t := by
  refine Machine.along_induction _ ?_ ?_
  · refine ⟨[], _, rfl, rfl, fun i => .outside _, fun _ => rfl, fun hmissing => Or.inl ?_⟩
    exact textAt_eq_none hmissing
  · rintro run s a s' - ⟨acts, t, hexec, hhistory, hrefines⟩ hmiss hstep
    obtain ⟨acts', t', hexec', hhistory', hrefines'⟩ := simulates_step hrefines rfl hstep hmiss
    refine ⟨acts ++ acts', t', ?_, ?_, hrefines'⟩
    · rw [Machine.exec_append_of_exec _ hexec, hexec']
    · have hlast : ClientAct.history [a] = (ClientAct.event? a).toList := by
        cases hevent : ClientAct.event? a <;> simp [ClientAct.history, hevent]
      rw [AtomicAct.history, List.filterMap_append, ClientAct.history, List.filterMap_append]
      exact congrArg₂ _ hhistory (hhistory'.trans hlast.symm)

/-! ## 4. Linearizability -/

/-- **When the token store is linearizable.** In every run in which no get
looks at a missing key while a set is between its delete and its write, the
answers and the stored text are those of one order of the calls, which
respects real time; and a token that every set writes is never denied. -/
theorem tokenClients_linearizable (player_id : Int32) (game_key : String)
    (calls : Fin N → TokenCall) (redis : Store S) (run : List (Fin N × ClientAct))
    (s : Clients S N)
    (hexec : (tokenClients player_id game_key calls redis).exec
      (tokenClients player_id game_key calls redis).init run = some s)
    (hmiss : (tokenClients player_id game_key calls redis).Along
      (MissesWindow (tokenKey player_id game_key) calls)
      (tokenClients player_id game_key calls redis).init run) :
    LinearizableRun (tokenKey player_id game_key) calls redis run s ∧
      KeepsAnswering (tokenKey player_id game_key) calls redis run := by
  obtain ⟨acts, t, hatomic, hhistory, hrefines⟩ := refines_of_exec run s hmiss hexec
  have hinv := atomicInv_of_exec hatomic
  have hlin : LinearizableRun (tokenKey player_id game_key) calls redis run s := by
    refine ⟨AtomicAct.commits acts, hhistory ▸ hinv.linearizes, ?_⟩
    intro hquiet
    rw [← hinv.value_eq, hrefines.value_eq fun _ j => ?_]
    have hj := hquiet j
    cases hc : s.client j with
    | outside => rfl
    | running sent rest => rw [hc] at hj; cases hj
    | returned => rfl
  exact ⟨hlin, hlin.keepsAnswering⟩

end Refinement

/-- Player 7 of game "g" logs in again with the stored token while another
server checks it. -/
def relogin (i : Fin 2) : TokenCall := if i = 0 then .set 1 ⟨60, by decide⟩ else .get 1

/-- The check looks before the delete and after the write. -/
theorem get_around_window :
    ∃ s, (tokenClients 7 "g" relogin loggedIn).exec (tokenClients 7 "g" relogin loggedIn).init
        [(0, .invoke), (1, .invoke), (0, .command), (1, .command), (0, .command), (0, .command),
          (1, .command), (0, .respond true), (1, .respond true)] = some s ∧
      LinearizableRun (tokenKey 7 "g") relogin loggedIn
        [(0, .invoke), (1, .invoke), (0, .command), (1, .command), (0, .command), (0, .command),
          (1, .command), (0, .respond true), (1, .respond true)] s :=
  ⟨_, rfl, (tokenClients_linearizable 7 "g" relogin loggedIn
    [(0, .invoke), (1, .invoke), (0, .command), (1, .command), (0, .command), (0, .command),
      (1, .command), (0, .respond true), (1, .respond true)] _ rfl (by decide)).1⟩

/-- The check looks between the delete and the write, and answers false. -/
theorem get_in_window :
    ¬ ∀ run s, (tokenClients 7 "g" relogin loggedIn).exec
        (tokenClients 7 "g" relogin loggedIn).init run = some s →
      LinearizableRun (tokenKey 7 "g") relogin loggedIn run s := by
  intro h
  have hlin := h [(0, .invoke), (0, .command), (0, .command), (1, .invoke), (1, .command),
    (1, .respond false)] _ rfl
  have hsets : ∀ i t seconds, .invoke i ∈ ClientAct.history [(0, .invoke), (0, .command),
      (0, .command), (1, .invoke), (1, .command), (1, .respond false)] →
      relogin i = .set t seconds → t = 1 := by
    intro i t seconds _ hcall
    simp only [relogin] at hcall
    split at hcall
    · cases hcall; rfl
    · cases hcall
  have hanswer := hlin.keepsAnswering 1 (by decide) hsets 1 false rfl (by decide)
  cases hanswer

end SpringDome.Redis
