/-
SpringDome.Net.SendGet — one call by itself, whatever earlier calls left.

`After.alone` is the meaning of the code behind `execute` when nobody else
writes the field: a result, from the response in the field. `runs_alone` shows
that a call that moves alone gets there, whatever the state of the others.

For `sendGet` the result is always a status code, because the date that it
logs throws. `sendGet_faithful_iff` compares this with what the call is for.
-/
import SpringDome.Net.HttpThreads

namespace SpringDome.Net

open SpringDome.Lib

variable {B : Type} {N : Nat}

/-! ## 1. Meaning of the code behind `execute` -/

/-- The text of a response, if it has one that can still be read. -/
def HttpResponse.content (r : HttpResponse B) : Option B :=
  r.entity.bind fun e => if e.consumed then none else e.content

/-- A response whose entity was read or consumed. -/
def HttpResponse.discarded (r : HttpResponse B) : HttpResponse B :=
  { r with entity := r.entity.map fun e => { e with consumed := true } }

/-- What the code comes to, with this response in the field. -/
def After.alone : After B → Option (HttpResponse B) → Result B
  | .done r, _ => r
  | .status npe _, none => npe.alone none
  | .status _ k, some r => (k r.statusCode).alone (some r)
  | .entity npe _ _, none => npe.alone none
  | .entity _ absent k, some r =>
      if r.entity.isSome then (k r.content).alone (some r.discarded) else absent.alone (some r)
  | .check isNull _, none => isNull.alone none
  | .check _ notNull, some r => notNull.alone (some r)
  | .consume _, none => .threw
  | .consume rest, some r => rest.alone (some r.discarded)

namespace HttpThreads

/-- The response in the field. -/
def current (s : HttpThreads B N) : Option (HttpResponse B) :=
  s.httpResponse.bind fun ref => s.responses[ref]?

/-- The field holds a response that was obtained. -/
def FieldKnown (s : HttpThreads B N) : Prop := ∀ ref ∈ s.httpResponse, ref < s.responses.length

@[simp] theorem goto_current (s : HttpThreads B N) (i : Fin N) (pc : CallPc B) (seen : Seen) :
    (s.goto i pc seen).current = s.current := rfl

@[simp] theorem goto_pc (s : HttpThreads B N) (i : Fin N) (pc : CallPc B) (seen : Seen) :
    ((s.goto i pc seen).thread i).pc = pc := by
  simp [goto]

theorem FieldKnown.discard {s : HttpThreads B N} (h : s.FieldKnown) (ref : Nat) :
    (s.discard ref).FieldKnown := by
  unfold FieldKnown
  rw [discard_length]
  exact h

theorem current_of_null {s : HttpThreads B N} (h : s.httpResponse = none) : s.current = none := by
  unfold current
  rw [h]
  rfl

theorem discard_current {s : HttpThreads B N} {ref : Nat} (h : s.httpResponse = some ref) :
    (s.discard ref).current = s.current.map HttpResponse.discarded := by
  unfold current
  rw [discard_httpResponse, h, Option.bind_some, Option.bind_some]
  show (s.responses.modify ref HttpResponse.discarded)[ref]? = _
  rw [List.getElem?_modify_eq]
  rfl

/-- The response the field refers to. -/
theorem FieldKnown.exists_current {s : HttpThreads B N} (h : s.FieldKnown) {ref : Nat}
    (href : s.httpResponse = some ref) :
    ∃ r, s.responses[ref]? = some r ∧ s.current = some r := by
  have hlt := h ref href
  refine ⟨s.responses[ref], List.getElem?_eq_getElem hlt, ?_⟩
  unfold current
  rw [href, Option.bind_some, List.getElem?_eq_getElem hlt]

/-- Steps keep it so. -/
theorem FieldKnown.step {calls : Fin N → EntryPoint} {s s' : HttpThreads B N}
    {a : Fin N × HttpAct B} (h : s.FieldKnown) (hstep : s.step calls a = some s') :
    s'.FieldKnown := by
  obtain ⟨i, act⟩ := a
  obtain ⟨ok, rfl, hpc, rfl⟩ | ⟨response, rfl, hpc, rfl⟩ | ⟨rfl, hpc, rfl⟩ | ⟨rest, rfl, hpc, rfl⟩ |
    ⟨ref, k, rfl, hpc, rfl⟩ := step_cases hstep
  · exact h
  · rintro ref ⟨⟩
    simp
  · exact h
  · obtain ⟨pc, seen, -, heq | ⟨ref, heq⟩⟩ := s.accessField_cases i (s.thread i).seen rest
    · rw [heq]
      exact h
    · rw [heq]
      exact h.discard ref
  · exact h.discard ref

end HttpThreads

theorem fieldKnown_of_reachable {calls : Fin N → EntryPoint} {s : HttpThreads B N}
    (h : (httpThreads B calls).Reachable s) : s.FieldKnown :=
  (httpThreads B calls).reachable_invariant (fun _ h => by cases h)
    (fun _ _ _ h hstep => h.step hstep) h

/-! ## 2. A call by itself -/

section Alone

variable {calls : Fin N → EntryPoint} {s s' : HttpThreads B N} {i : Fin N} {r : Result B}

/-- If nobody else moves, the call returns `r`. -/
def ReturnsAlone (calls : Fin N → EntryPoint) (s : HttpThreads B N) (i : Fin N) (r : Result B) :
    Prop :=
  ∃ n s', (httpThreads B calls).exec s (List.replicate n (i, .access)) = some s' ∧
    (s'.thread i).pc = .returned r

theorem ReturnsAlone.of_step (hstep : s.step calls (i, .access) = some s')
    (h : ReturnsAlone calls s' i r) : ReturnsAlone calls s i r := by
  obtain ⟨n, t, hexec, hpc⟩ := h
  refine ⟨n + 1, t, ?_, hpc⟩
  rw [List.replicate_succ, Machine.exec_cons_of_step _ hstep, hexec]

theorem ReturnsAlone.of_after {rest : After B} (hpc : (s.thread i).pc = .after rest)
    (h : ReturnsAlone calls (s.accessField i (s.thread i).seen rest) i r) :
    ReturnsAlone calls s i r := by
  refine h.of_step ?_
  simp only [HttpThreads.step, hpc]

/-- A call that moved on in its code returns what the rest comes to. -/
theorem ReturnsAlone.of_goto {rest : After B} {seen : Seen} {field : Option (HttpResponse B)}
    (hcurrent : s.current = field) (h : ReturnsAlone calls (s.goto i (.after rest) seen) i
      (rest.alone (s.goto i (.after rest) seen).current)) :
    ReturnsAlone calls (s.goto i (.after rest) seen) i (rest.alone field) := by
  rw [HttpThreads.goto_current, hcurrent] at h
  exact h

/-- Reading the entity of the response in the field. -/
theorem ReturnsAlone.of_reading {ref : Nat} {k : Option B → After B} {seen : Seen}
    {response : HttpResponse B} (hfield : s.httpResponse = some ref)
    (hresponse : s.responses[ref]? = some response) (hknown : s.FieldKnown)
    (ih : ∀ {t : HttpThreads B N}, (t.thread i).pc = .after (k response.content) → t.FieldKnown →
      ReturnsAlone calls t i ((k response.content).alone t.current)) :
    ReturnsAlone calls (s.goto i (.reading ref k) seen) i
      ((k response.content).alone (some response.discarded)) := by
  have hcurrent : s.current = some response := by
    unfold HttpThreads.current
    rw [hfield, Option.bind_some, hresponse]
  have hcontent : (s.goto i (.reading ref k) seen).contentOf ref = response.content := by
    show (s.responses[ref]?.bind HttpResponse.entity).bind _ = _
    rw [hresponse]
    rfl
  have hdiscarded : ((s.goto i (.reading ref k) seen).discard ref).current =
      some response.discarded := by
    have hmoved : (s.goto i (.reading ref k) seen).httpResponse = some ref := hfield
    rw [HttpThreads.discard_current hmoved, HttpThreads.goto_current, hcurrent, Option.map_some]
  have hmove : (s.goto i (.reading ref k) seen).step calls (i, .access) =
      some (((s.goto i (.reading ref k) seen).discard ref).goto i
        (.after (k response.content)) ((s.goto i (.reading ref k) seen).thread i).seen) := by
    simp only [HttpThreads.step, HttpThreads.goto_pc, hcontent]
  refine .of_step hmove (.of_goto hdiscarded (ih (HttpThreads.goto_pc _ i _ _) ?_))
  exact HttpThreads.FieldKnown.discard hknown ref

/-- The code behind `execute`, run alone, comes to what it means. -/
theorem runs_alone (rest : After B) (hpc : (s.thread i).pc = .after rest)
    (hknown : s.FieldKnown) : ReturnsAlone calls s i (rest.alone s.current) := by
  induction rest generalizing s with
  | done r => exact .of_after hpc ⟨0, _, rfl, s.goto_pc i _ _⟩
  | status npe k ihnpe ihk =>
      refine .of_after hpc ?_
      rw [HttpThreads.accessField]
      cases hcurrent : s.httpResponse.bind fun ref => s.responses[ref]? with
      | none =>
          have hnone : s.current = none := hcurrent
          rw [hnone]
          exact .of_goto hnone (ihnpe (s.goto_pc i _ _) hknown)
      | some response =>
          have hsome : s.current = some response := hcurrent
          rw [hsome]
          exact .of_goto hsome (ihk _ (s.goto_pc i _ _) hknown)
  | entity npe absent k ihnpe ihabsent ihk =>
      refine .of_after hpc ?_
      rw [HttpThreads.accessField]
      cases hfield : s.httpResponse with
      | none =>
          have hnone := HttpThreads.current_of_null hfield
          rw [hnone]
          exact .of_goto hnone (ihnpe (s.goto_pc i _ _) hknown)
      | some ref =>
          obtain ⟨r, hr, hsome⟩ := hknown.exists_current hfield
          have hentity : s.entityOf ref = r.entity := by simp [HttpThreads.entityOf, hr]
          simp only [hsome, hentity, After.alone]
          cases hread : r.entity.isSome with
          | false =>
              simp only [Bool.false_eq_true, if_false]
              exact .of_goto hsome (ihabsent (s.goto_pc i _ _) hknown)
          | true =>
              simp only [if_true]
              exact .of_reading hfield hr hknown (ihk r.content)
  | check isNull notNull ihnull ihnotNull =>
      refine .of_after hpc ?_
      rw [HttpThreads.accessField]
      cases hfield : s.httpResponse with
      | none =>
          have hnone := HttpThreads.current_of_null hfield
          rw [hnone]
          exact .of_goto hnone (ihnull (s.goto_pc i _ _) hknown)
      | some ref =>
          obtain ⟨r, hr, hsome⟩ := hknown.exists_current hfield
          rw [hsome]
          exact .of_goto hsome (ihnotNull (s.goto_pc i _ _) hknown)
  | consume rest ih =>
      refine .of_after hpc ?_
      rw [HttpThreads.accessField]
      cases hfield : s.httpResponse with
      | none =>
          have hnone := HttpThreads.current_of_null hfield
          rw [hnone]
          exact ⟨0, _, rfl, s.goto_pc i _ _⟩
      | some ref =>
          obtain ⟨r, hr, hsome⟩ := hknown.exists_current hfield
          have hdiscarded : (s.discard ref).current = some r.discarded := by
            rw [HttpThreads.discard_current hfield, hsome, Option.map_some]
          rw [hsome]
          exact .of_goto hdiscarded (ih (HttpThreads.goto_pc _ i _ _) (hknown.discard ref))

/-- What becomes of a request. -/
inductive Exchange (B : Type) where
  /-- `new HttpGet(url)` or `new HttpPost(url)` throws: the text is no URI. -/
  | malformed
  /-- `execute` answers a response, or throws. -/
  | executed (outcome : Option (HttpResponse B))
  deriving DecidableEq, Repr

/-- The response, if one arrived. -/
def Exchange.response : Exchange B → Option (HttpResponse B)
  | .malformed => none
  | .executed outcome => outcome

/-- A call from its start on, up to and including `n` accesses. -/
def soloRun (i : Fin N) : Exchange B → Nat → List (Fin N × HttpAct B)
  | .malformed, n => (i, .create false) :: List.replicate n (i, .access)
  | .executed outcome, n =>
      (i, .create true) :: (i, .execute outcome) :: List.replicate n (i, .access)

/-- What a call comes to. The request is built before the `try`. -/
def HttpCall.result (call : HttpCall B) (field : Option (HttpResponse B)) : Exchange B → Result B
  | .malformed => .threw
  | .executed outcome =>
      (if outcome.isSome then call.stored else call.thrown).alone (outcome.or field)

/-- Up to `execute`: the code to come, and the response it will find. -/
theorem exec_soloRun (hstart : (s.thread i).pc = .start) (hknown : s.FieldKnown)
    (outcome : Option (HttpResponse B)) :
    ∃ t : HttpThreads B N, t.FieldKnown ∧ t.current = outcome.or s.current ∧
      (t.thread i).pc =
        .after (if outcome.isSome then (calls i).call.stored else (calls i).call.thrown) ∧
      ∀ n, (httpThreads B calls).exec s (soloRun i (.executed outcome) n) =
        (httpThreads B calls).exec t (List.replicate n (i, .access)) := by
  have hcreate : s.step calls (i, .create true) =
      some (s.goto i .executing (s.thread i).seen) := by
    simp only [HttpThreads.step, hstart, if_true]
  have hcreated : (s.goto i .executing (s.thread i).seen).FieldKnown := hknown
  cases outcome with
  | none =>
      have hexecute : (s.goto i .executing (s.thread i).seen).step calls (i, .execute none) =
          some ((s.goto i .executing (s.thread i).seen).goto i (.after (calls i).call.thrown)
            ((s.goto i .executing (s.thread i).seen).thread i).seen) := by
        simp only [HttpThreads.step, HttpThreads.goto_pc]
      refine ⟨_, hcreated.step hexecute, rfl, HttpThreads.goto_pc _ i _ _, ?_⟩
      intro n
      unfold soloRun
      rw [Machine.exec_cons_of_step _ hcreate, Machine.exec_cons_of_step _ hexecute]
  | some response =>
      have hexecute : ∃ t, (s.goto i .executing (s.thread i).seen).step calls
          (i, .execute (some response)) = some t ∧ t.current = some response ∧
          (t.thread i).pc = .after (calls i).call.stored := by
        simp only [HttpThreads.step, HttpThreads.goto_pc]
        refine ⟨_, rfl, ?_, HttpThreads.goto_pc _ i _ _⟩
        simp [HttpThreads.current]
      obtain ⟨t, hstep, hcurrent, hpc⟩ := hexecute
      refine ⟨t, hcreated.step hstep, hcurrent, hpc, ?_⟩
      intro n
      unfold soloRun
      rw [Machine.exec_cons_of_step _ hcreate, Machine.exec_cons_of_step _ hstep]

/-- **What a call by itself returns**, and that it returns. -/
theorem call_alone (hstart : (s.thread i).pc = .start) (hknown : s.FieldKnown)
    (exchange : Exchange B) :
    (∃ n t r, (httpThreads B calls).exec s (soloRun i exchange n) = some t ∧
      (t.thread i).pc = .returned r) ∧
    ∀ n t r, (httpThreads B calls).exec s (soloRun i exchange n) = some t →
      (t.thread i).pc = .returned r → r = (calls i).call.result s.current exchange := by
  -- the run goes on from `t₀` with accesses, and these come to the result
  have hruns : ∃ t₀, (∀ n, (httpThreads B calls).exec s (soloRun i exchange n) =
      (httpThreads B calls).exec t₀ (List.replicate n (i, .access))) ∧
      ReturnsAlone calls t₀ i ((calls i).call.result s.current exchange) := by
    cases exchange with
    | malformed =>
        have hcreate : s.step calls (i, .create false) =
            some (s.goto i (.returned .threw) (s.thread i).seen) := by
          simp only [HttpThreads.step, hstart]
          rfl
        refine ⟨s.goto i (.returned .threw) (s.thread i).seen, fun n => ?_,
          0, _, rfl, HttpThreads.goto_pc s i _ _⟩
        rw [soloRun, Machine.exec_cons_of_step _ hcreate]
    | executed outcome =>
        obtain ⟨t₀, ht₀, hcurrent, hpc, hexec⟩ := exec_soloRun hstart hknown outcome
        refine ⟨t₀, hexec, ?_⟩
        have halone : ReturnsAlone calls t₀ i _ := runs_alone _ hpc ht₀
        rw [hcurrent] at halone
        exact halone
  obtain ⟨t₀, hexec, n₀, t₁, hexec₁, hreturned⟩ := hruns
  have hstuck : ∀ {t : HttpThreads B N} {r : Result B}, (t.thread i).pc = .returned r →
      (httpThreads B calls).step t (i, .access) = none := by
    intro t r hr
    show t.step calls (i, .access) = none
    simp only [HttpThreads.step, hr]
  refine ⟨⟨n₀, t₁, _, (hexec n₀).trans hexec₁, hreturned⟩, ?_⟩
  intro n t r ht hr
  rw [hexec] at ht
  obtain rfl := (httpThreads B calls).exec_replicate_unique ht (hstuck hr) hexec₁
    (hstuck hreturned)
  rw [hreturned] at hr
  exact (CallPc.returned.inj hr).symm

end Alone

/-! ## 3. `sendGet` -/

/-- The text that a `String` method returns, if it returns one. -/
def Result.text : Result String → Option String
  | .body b => some b
  | .code n => some (toString n)
  | .null => none
  | .threw => none

/-- What `sendGet` is to return: the text of a successful response that has
one, the code of any other, and 0 without a response. -/
def reported : Option (HttpResponse String) → String
  | none => "0"
  | some r =>
      if isSuccess r.statusCode then r.content.getD (toString r.statusCode)
      else toString r.statusCode

/-- The date is no date, so `sendGet` never gets to the entity. -/
theorem sendGet_alone (outcome field : Option (HttpResponse B)) :
    (if outcome.isSome then sendGet.stored else sendGet.thrown).alone (outcome.or field) =
      .code (outcome.elim 0 HttpResponse.statusCode) := by
  have hrejects : dateRejects "yyyy mm dd hh mm ss" = true := by decide
  cases outcome with
  | none => cases field <;> rfl
  | some r =>
      simp only [sendGet, hrejects, Option.isSome_some, if_true]
      rfl

/-- **When `sendGet` reports its exchange.** From any state that earlier calls
left, a call that is not disturbed returns or throws, and what it returns is
what it is to return if and only if the request could be built and no text was
lost: a successful response has none, or its text is its status code. -/
theorem sendGet_faithful_iff {calls : Fin N → EntryPoint} {s : HttpThreads String N} {i : Fin N}
    (hcall : calls i = .sendGet) (hreach : (httpThreads String calls).Reachable s)
    (hstart : (s.thread i).pc = .start) (exchange : Exchange String) :
    (∃ n t r, (httpThreads String calls).exec s (soloRun i exchange n) = some t ∧
      (t.thread i).pc = .returned r) ∧
    ∀ n t r, (httpThreads String calls).exec s (soloRun i exchange n) = some t →
      (t.thread i).pc = .returned r →
      (r.text = some (reported exchange.response) ↔ exchange ≠ .malformed ∧
        ∀ response ∈ exchange.response, isSuccess response.statusCode = true →
          ∀ text ∈ response.content, text = toString response.statusCode) := by
  obtain ⟨hreturns, halone⟩ := call_alone hstart (fieldKnown_of_reachable hreach) exchange
  refine ⟨hreturns, ?_⟩
  intro n t r ht hr
  obtain rfl := halone n t r ht hr
  rw [hcall]
  cases exchange with
  | malformed => exact iff_of_false (fun h => nomatch h) fun h => h.1 rfl
  | executed outcome =>
      have hexecuted : (Exchange.executed outcome) ≠ .malformed := fun h => nomatch h
      rw [and_iff_right hexecuted]
      show (Result.text ((if _ then sendGet.stored else sendGet.thrown).alone _) = _ ↔ _)
      rw [sendGet_alone]
      cases outcome with
      | none =>
          have hzero : toString (0 : Int) = "0" := rfl
          simp [Result.text, reported, Exchange.response, hzero]
      | some response =>
          simp only [Option.elim_some, Result.text, reported, Exchange.response, Option.mem_some,
            forall_eq', Option.some.injEq]
          cases isSuccess response.statusCode with
          | false => simp
          | true => cases response.content <;> simp [eq_comm]

/-- Two calls of `sendGet`. -/
def twoGets : Fin 2 → EntryPoint := fun _ => .sendGet

/-- The first call got a text; the second gets a 404, and says so. -/
theorem sendGet_reports_404 :
    ∃ s, (httpThreads String twoGets).exec (httpThreads String twoGets).init
        (soloRun 0 (.executed (some (okResponse "a"))) 4) = some s ∧
      ∀ n t r, (httpThreads String twoGets).exec s
          (soloRun 1 (.executed (some ⟨404, none⟩)) n) = some t →
        (t.thread 1).pc = .returned r → r.text = some "404" := by
  have hget : twoGets 1 = .sendGet := rfl
  refine ⟨_, rfl, ?_⟩
  intro n t r ht hr
  have hfaithful := (sendGet_faithful_iff hget
    ⟨soloRun 0 (.executed (some (okResponse "a"))) 4, rfl⟩ rfl
    (.executed (some ⟨404, none⟩))).2 n t r ht hr
  rw [hfaithful.mpr (by simp [Exchange.response, HttpResponse.content])]
  rfl

/-- A text that arrived is not returned, and of a text that is no URL nothing is
reported. -/
theorem sendGet_drops_text :
    (∃ s, (httpThreads String twoGets).exec (httpThreads String twoGets).init
        (soloRun 0 (.executed (some (okResponse "a"))) 4) = some s ∧
      (s.thread 0).pc = .returned (.code 200) ∧
      (Result.code 200).text ≠ some (reported (some (okResponse "a")))) ∧
    ∃ s, (httpThreads String twoGets).exec (httpThreads String twoGets).init
        (soloRun 0 .malformed 0) = some s ∧
      (s.thread 0).pc = .returned .threw ∧ (Result.threw).text ≠ some (reported none) :=
  ⟨⟨_, rfl, rfl, by decide⟩, _, rfl, rfl, by decide⟩

end SpringDome.Net
