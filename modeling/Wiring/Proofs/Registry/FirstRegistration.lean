import Wiring.Proofs.Registry.Record

/-!
The first registration of a key wins. One call publishes the entry of a key and tells the observers
of it; from then on the entry stays, every call resolves through it, and a producer that was handed
to another call runs only where that call holds the gate and finds no entry.
-/
namespace Wiring.Registry

namespace Taken

variable {terms : Terms} {keys : List Key} {calls : ClientId → List Call} {s : Store}
  {c : ClientId} {a : Action} {r : a.Response} {calls' : List Call} {keys' : List Key} {s' : Store}
  {h : History} {key : Key}

theorem teller {i : Nat} {policy : Policy} {r : Unit}
    (taken : Taken terms keys calls s c (.observe i (.registered key policy)) r calls' keys' s') :
    ∃ mode offer e rest, calls c = ⟨key, mode, offer, .announcing e i⟩ :: rest ∧
      calls' = ⟨key, mode, offer, .announcing e (i + 1)⟩ :: rest ∧ i < terms.observers ∧
        policy = e.policy := by
  have move := taken.move
  generalize calls c = cs at move
  cases move with
  | @own call rest _ _ _ n =>
      obtain ⟨k, mode, offer, stage⟩ := call
      cases n with
      | tell hl => exact ⟨mode, offer, _, rest, rfl, rfl, hl, rfl⟩
      | observe hn => cases hn
  | aside _ ha => cases ha

/-- A call that announces an entry after a step was announcing it before, has just published it or
has told one more observer. -/
theorem announcing_cases (taken : Taken terms keys calls s c a r calls' keys' s') {c' : ClientId}
    {x : Call} (hx : x ∈ Function.update calls c calls' c') {e : Entry} {n : Nat}
    (hs : x.stage = .announcing e n) (unpublished : ∀ slot, a ≠ .publish slot e)
    (untold : ∀ i policy, a ≠ .observe i (.registered x.key policy)) :
    ∃ y ∈ calls c', y.key = x.key ∧ y.stage = .announcing e n := by
  cases taken.origin hx with
  | old there => exact ⟨x, there, rfl, hs⟩
  | entered new => simp [new] at hs
  | @stepped call stage mine there next =>
      subst mine
      obtain ⟨k, mode, offer, old⟩ := call
      simp only at hs untold
      subst hs
      cases next with
      | publish | publishMade => exact absurd rfl (unpublished _)
      | tell => exact absurd rfl (untold _ _)
      | observe => exact ⟨_, there, rfl, rfl⟩

/-- A call goes on announcing its entry until the last observer has been told. -/
theorem announcing_kept (taken : Taken terms keys calls s c a r calls' keys' s') {c' : ClientId}
    {x : Call} (hx : x ∈ calls c') {e : Entry} {n : Nat} (hs : x.stage = .announcing e n)
    (more : n < terms.observers)
    (untold : ∀ i policy, a ≠ .observe i (.registered x.key policy)) :
    x ∈ Function.update calls c calls' c' := by
  cases taken.fate hx with
  | stays there => exact there
  | steps _ next there =>
      obtain ⟨k, mode, offer, old⟩ := x
      simp only at hs untold
      subst hs
      cases next with
      | tell => exact absurd rfl (untold _ _)
      | free => exact absurd more (Nat.lt_irrefl _)
      | observe => exact there
  | ends _ comes_back =>
      have free := comes_back.free.1
      rw [hs] at free
      cases free

end Taken

/-- How far the observers have been told of the entry of `key`. -/
structure Announced (observers : Nat) (key : Key) (calls : ClientId → List Call) (s : Store)
    (h : History) : Prop where
  told : ∀ i, h.told i key = [] ∨
    ∃ e, s.entryOf? key = some e ∧ i < observers ∧ h.told i key = [e.policy]
  pending : ∀ e, s.entryOf? key = some e → ∀ i, i < observers → h.told i key = [] →
    ∃ c, ∃ x ∈ calls c, ∃ n, x.key = key ∧ x.stage = .announcing e n ∧ n ≤ i
  untold : ∀ c, ∀ x ∈ calls c, ∀ e n, x.key = key → x.stage = .announcing e n →
    ∀ i, n ≤ i → h.told i key = []
  publisher : ∀ c slot e r, ⟨c, .publish slot e, r⟩ ∈ h → e.key = key →
    e.slot = slot ∧ ∀ c', ∀ x ∈ calls c', ∀ n, x.key = key → x.stage = .announcing e n → c' = c

theorem mem_published {c : ClientId} {slot : SlotId} {e : Entry} {r : Entry} {h : History}
    (hm : ⟨c, .publish slot e, r⟩ ∈ h) : e ∈ h.published e.key := by
  induction h with
  | nil => cases hm
  | cons p h ih =>
      cases List.mem_cons.1 hm with
      | inl eq =>
          subst eq
          simp [History.published]
      | inr old =>
          have there := ih old
          obtain ⟨c', a, r'⟩ := p
          cases a with
          | publish slot' e' =>
              simp only [History.published]
              split
              · exact List.mem_cons_of_mem _ there
              · exact there
          | _ => exact there

theorem History.published_suffix {h h' : History} {key : Key} (hs : h <:+ h') :
    h.published key <:+ h'.published key := by
  obtain ⟨more, rfl⟩ := hs
  induction more with
  | nil => exact List.suffix_refl _
  | cons p more ih =>
      obtain ⟨c, a, r⟩ := p
      cases a with
      | publish slot e =>
          simp only [List.cons_append, History.published]
          split
          · exact ih.trans (List.suffix_cons _ _)
          · exact ih
      | _ => exact ih

namespace Announced

variable {terms : Terms} {keys : List Key} {calls : ClientId → List Call} {s : Store}
  {c : ClientId} {a : Action} {r : a.Response} {calls' : List Call} {keys' : List Key} {s' : Store}
  {h : History} {key : Key}

theorem publish {slot : SlotId} {e : Entry} {r : Entry}
    (taken : Taken terms keys calls s c (.publish slot e) r calls' keys' s')
    (rec : Recorded keys calls s h) (old : Announced terms.observers e.key calls s h) :
    Announced terms.observers e.key (Function.update calls c calls') s'
      (⟨c, .publish slot e, r⟩ :: h) := by
  obtain ⟨absent, present, -⟩ := taken.entryOf?_publish rec.indexed
  obtain ⟨mode, offer, stage, rest, hcs, hcs', hslot, -⟩ := taken.publisher
  have silent : ∀ i, h.told i e.key = [] := by
    intro i
    cases old.told i with
    | inl h => exact h
    | inr right =>
        obtain ⟨e', he', -⟩ := right
        cases absent.symm.trans he'
  have alone : ∀ c', ∀ x ∈ Function.update calls c calls' c', ∀ n, x.key = e.key →
      x.stage = .announcing e n → c' = c := by
    intro c' x hx n hk hs
    cases taken.origin hx with
    | old there =>
        have known := rec.entryOf?_of_known taken.before there e (by rw [hs]; rfl)
        cases absent.symm.trans (hk ▸ known)
    | entered new => simp [new] at hs
    | stepped mine => exact mine
  refine ⟨fun i => .inl (silent i), ?_, fun _ _ _ _ _ _ _ i _ => silent i, ?_⟩
  · intro e' he' i _ _
    cases present.symm.trans he'
    exact ⟨c, _, by rw [Function.update_self, hcs']; exact List.mem_cons_self, 0, rfl, rfl,
      Nat.zero_le i⟩
  · intro c' slot' e' r' hm hk
    cases List.mem_cons.1 hm with
    | inl eq =>
        cases eq
        exact ⟨hslot, alone⟩
    | inr hm =>
        have published := mem_published hm
        rw [rec.published, hk, absent] at published
        cases published

theorem tell {i : Nat} {policy : Policy} {r : Unit}
    (taken : Taken terms keys calls s c (.observe i (.registered key policy)) r calls' keys' s')
    (rec : Recorded keys calls s h) (old : Announced terms.observers key calls s h) :
    Announced terms.observers key (Function.update calls c calls') s'
      (⟨c, .observe i (.registered key policy), r⟩ :: h) := by
  have rec' := taken.recorded (by simp) rec
  have same := taken.entryOf?_eq (by simp) rec.indexed (by simp) key
  obtain ⟨mode, offer, e, rest, hcs, hcs', hi, rfl⟩ := taken.teller
  have top : (⟨key, mode, offer, .announcing e i⟩ : Call) ∈ calls c := by simp [hcs]
  have top' : (⟨key, mode, offer, .announcing e (i + 1)⟩ : Call) ∈
      Function.update calls c calls' c := by simp [hcs']
  have known := rec.entryOf?_of_known taken.before top e rfl
  have silent : h.told i key = [] := old.untold c _ top e i rfl rfl i (Nat.le_refl i)
  have told : ∀ j, History.told j key (⟨c, .observe i (.registered key e.policy), r⟩ :: h) =
      if i = j then [e.policy] else h.told j key := by
    intro j
    simp only [History.told, and_true]
    split
    · next hij => rw [← hij, silent]
    · rfl
  have alone : ∀ c', ∀ x ∈ Function.update calls c calls' c', ∀ e' n, x.key = key →
      x.stage = .announcing e' n → c = c' ∧ e = e' ∧ i + 1 = n := by
    intro c' x hx e' n hk hs
    obtain ⟨hc, rfl⟩ := rec'.gate_unique taken.after top' hx hk.symm rfl (by rw [hs]; rfl)
    cases hs
    exact ⟨hc, rfl, rfl⟩
  refine ⟨?_, ?_, ?_, ?_⟩
  · intro j
    rw [told, same]
    split
    · next hij => exact .inr ⟨e, known, hij ▸ hi, rfl⟩
    · exact old.told j
  · intro e' he' j hj hn
    rw [told] at hn
    split at hn
    · cases hn
    · next hij =>
        rw [same, known] at he'
        cases he'
        obtain ⟨c', x, hx, n, hk, hs, hle⟩ := old.pending e known j hj hn
        obtain ⟨-, rfl⟩ := rec.gate_unique taken.before top hx hk.symm rfl (by rw [hs]; rfl)
        cases hs
        exact ⟨c, _, top', i + 1, rfl, rfl, by omega⟩
  · intro c' x hx e' n hk hs j hj
    obtain ⟨-, -, rfl⟩ := alone c' x hx e' n hk hs
    rw [told, if_neg (by omega)]
    exact old.untold c _ top e i rfl rfl j (by omega)
  · intro c' slot' e' r' hm hk
    cases List.mem_cons.1 hm with
    | inl eq => cases eq
    | inr hm =>
        refine ⟨(old.publisher c' slot' e' r' hm hk).1, fun c'' x hx n hk' hs => ?_⟩
        obtain ⟨rfl, rfl, -⟩ := alone c'' x hx e' n hk' hs
        exact (old.publisher c' slot' e r' hm hk).2 c _ top i rfl rfl

theorem other (taken : Taken terms keys calls s c a r calls' keys' s') (calm : a ≠ .clearEntries)
    (rec : Recorded keys calls s h) (old : Announced terms.observers key calls s h)
    (unpublished : ∀ slot e, a = .publish slot e → e.key ≠ key)
    (untold : ∀ i policy, a ≠ .observe i (.registered key policy)) :
    Announced terms.observers key (Function.update calls c calls') s' (⟨c, a, r⟩ :: h) := by
  have rec' := taken.recorded calm rec
  have same := taken.entryOf?_same calm rec.indexed unpublished
  have told : ∀ i, History.told i key (⟨c, a, r⟩ :: h) = h.told i key := by
    intro i
    cases a with
    | observe j notice =>
        cases notice with
        | registered k policy =>
            have hk : k ≠ key := by
              intro he
              subst he
              exact untold j policy rfl
            simp [History.told, hk]
        | _ => rfl
    | _ => rfl
  have before : ∀ c', ∀ x ∈ Function.update calls c calls' c', ∀ e n, x.key = key →
      x.stage = .announcing e n → ∃ y ∈ calls c', y.key = key ∧ y.stage = .announcing e n := by
    intro c' x hx e n hk hs
    subst hk
    refine taken.announcing_cases hx hs (fun slot ha => unpublished slot e ha ?_) untold
    have known := rec'.entryOf?_of_known taken.after hx e (by rw [hs]; rfl)
    exact (Recorded.suits taken.after known).1.key
  refine ⟨?_, ?_, ?_, ?_⟩
  · intro i
    rw [told, same]
    exact old.told i
  · intro e he i hi hn
    rw [same] at he
    rw [told] at hn
    obtain ⟨c', x, hx, n, rfl, hs, hle⟩ := old.pending e he i hi hn
    have more : n < terms.observers := Nat.lt_of_le_of_lt hle hi
    exact ⟨c', x, taken.announcing_kept hx hs more untold, n, rfl, hs, hle⟩
  · intro c' x hx e n hk hs i hi
    obtain ⟨y, hy, hyk, hys⟩ := before c' x hx e n hk hs
    rw [told]
    exact old.untold c' y hy e n hyk hys i hi
  · intro c' slot e r' hm hk
    cases List.mem_cons.1 hm with
    | inl eq =>
        cases eq
        exact absurd hk (unpublished _ _ rfl)
    | inr hm =>
        obtain ⟨hslot, alone⟩ := old.publisher c' slot e r' hm hk
        refine ⟨hslot, fun c'' x hx n hxk hs => ?_⟩
        obtain ⟨y, hy, hyk, hys⟩ := before c'' x hx e n hxk hs
        exact alone c'' y hy n hyk hys

theorem kept (terms : Terms) (key : Key) :
    KeptCalm terms fun _ calls s h => Announced terms.observers key calls s h := by
  intro keys calls s c a r calls' keys' s' h taken calm rec old
  by_cases hp : ∃ slot e, a = .publish slot e ∧ e.key = key
  · obtain ⟨slot, e, rfl, rfl⟩ := hp
    exact publish taken rec old
  · by_cases ho : ∃ i policy, a = .observe i (.registered key policy)
    · obtain ⟨i, policy, rfl⟩ := ho
      exact tell taken rec old
    · exact other taken calm rec old (fun slot e ha hk => hp ⟨slot, e, ha, hk⟩)
        fun i policy ha => ho ⟨i, policy, ha⟩

/-- Every observer knows of an entry when the call that published it has let go of the gate. -/
theorem all_told {observers : Nat} (announced : Announced observers key calls s h)
    (rec : Recorded keys calls s h) (tenure : Tenure terms keys calls s) {slot : SlotId}
    {e r : Entry} (hm : ⟨c, .publish slot e, r⟩ ∈ h) (hk : e.key = key)
    (free : h.holder slot ≠ some c) {i : Nat} (hi : i < observers) :
    h.told i key = [e.policy] := by
  have published := mem_published hm
  rw [hk, rec.published, Option.mem_toList] at published
  cases announced.told i with
  | inl silent =>
      obtain ⟨c', x, hx, n, hxk, hs, -⟩ := announced.pending e published i hi silent
      obtain ⟨rfl, mine⟩ := announced.publisher c slot e r hm hk
      obtain rfl := mine c' x hx n hxk hs
      refine absurd ?_ free
      rw [rec.holder]
      exact (tenure.gate e.slot c').2 ⟨x, hx, by rw [hs]; rfl⟩
  | inr right =>
      obtain ⟨e', there, -, told⟩ := right
      cases Option.some.inj (Option.mem_def.1 published ▸ there)
      exact told

theorem start (observers : Nat) (key : Key) : Announced observers key (fun _ => []) .empty [] where
  told _ := .inl rfl
  pending e he := by simp [Store.entryOf?, Store.slotOf?, Store.empty] at he
  untold := by simp
  publisher := by simp

end Announced

/-- What the history tells of the producers that were handed to calls for `key`. -/
structure Offered (key : Key) (calls : ClientId → List Call) (s : Store) (h : History) : Prop where
  published : ∀ c slot e r h', ⟨c, .publish slot e, r⟩ :: h' <:+ h → e.key = key →
    ∃ offer, (History.active c h').head? = some (key, offer) ∧
      (e.resolution.producer? = offer ∨
        ∃ inst, e.resolution.instance? = some inst ∧ offer = some inst.producer)
  begun : ∀ c slot p run h', ⟨c, .beginRun slot key p, run⟩ :: h' <:+ h →
    (∃ e, History.published key h' = [e] ∧ e.resolution.producer? = some p) ∨
      History.published key h' = [] ∧ History.holder slot h' = some c ∧
        (History.active c h').head? = some (key, some p)
  made : ∀ c slot p run o inst h', ⟨c, .endRun slot key p run o, .ok inst⟩ :: h' <:+ h →
    History.published key h' = [] →
      (∃ e r, ⟨c, .publish slot e, r⟩ ∈ h ∧ e.key = key ∧ e.resolution.instance? = some inst) ∨
        s.entryOf? key = none ∧ ∃ x ∈ calls c, x.key = key ∧ x.stage = .tried slot (.ok inst)

namespace Taken

variable {terms : Terms} {keys : List Key} {calls : ClientId → List Call} {s : Store}
  {c : ClientId} {a : Action} {r : a.Response} {calls' : List Call} {keys' : List Key} {s' : Store}
  {h : History} {key : Key}

theorem offered {slot : SlotId} {e : Entry} {r : Entry}
    (taken : Taken terms keys calls s c (.publish slot e) r calls' keys' s')
    (rec : Recorded keys calls s h) :
    ∃ offer, (History.active c h).head? = some (e.key, offer) ∧
      (e.resolution.producer? = offer ∨
        ∃ inst, e.resolution.instance? = some inst ∧ offer = some inst.producer) := by
  obtain ⟨mode, offer, stage, rest, hcs, -, -, -, how⟩ := taken.publisher
  refine ⟨offer, by rw [rec.active, hcs]; rfl, ?_⟩
  cases how with
  | inl left =>
      obtain ⟨-, -, hp⟩ := left
      exact .inl hp
  | inr right =>
      obtain ⟨inst, rfl, hi⟩ := right
      have fits := rec.fits c ⟨e.key, mode, offer, .tried slot (.ok inst)⟩ (by simp [hcs])
      exact .inr ⟨inst, hi, fits inst rfl⟩

theorem begun {slot : SlotId} {p : ProducerId} {r : Nat}
    (taken : Taken terms keys calls s c (.beginRun slot key p) r calls' keys' s')
    (rec : Recorded keys calls s h) :
    (∃ e, History.published key h = [e] ∧ e.resolution.producer? = some p) ∨
      History.published key h = [] ∧ History.holder slot h = some c ∧
        (History.active c h).head? = some (key, some p) := by
  have move := taken.move
  have active := rec.active c
  generalize hcs : calls c = cs at move active
  cases move with
  | @own call rest _ _ _ n =>
      obtain ⟨k, mode, offer, stage⟩ := call
      have top : (⟨k, mode, offer, stage⟩ : Call) ∈ calls c := by simp [hcs]
      have known := rec.entryOf?_of_known taken.before top
      cases n with
      | attempt hp =>
          right
          refine ⟨?_, ?_, ?_⟩
          · rw [rec.published, rec.entryOf?_of_vacant taken.before top rfl]
            rfl
          · rw [rec.holder]
            exact (taken.before.gate slot c).2 ⟨_, top, rfl⟩
          · rw [active, ← hp]
            rfl
      | makeFresh _ hp | makeShared _ hp =>
          refine .inl ⟨_, ?_, hp⟩
          rw [rec.published, known _ rfl]
          rfl
  | aside _ ha => cases ha

theorem tried {slot : SlotId} {p : ProducerId} {run : Nat} {o : Outcome} {inst : Instance}
    (taken : Taken terms keys calls s c (.endRun slot key p run o) (.ok inst) calls' keys' s')
    (rec : Recorded keys calls s h) (absent : s.entryOf? key = none) :
    ∃ x ∈ Function.update calls c calls' c, x.key = key ∧ x.stage = .tried slot (.ok inst) := by
  have move := taken.move
  generalize hcs : calls c = cs at move
  cases move with
  | @own call rest _ _ stage n =>
      have there : { call with stage } ∈
          Function.update calls c ({ call with stage } :: rest) c := by simp
      obtain ⟨k, mode, offer, old⟩ := call
      have top : (⟨k, mode, offer, old⟩ : Call) ∈ calls c := by simp [hcs]
      have known := rec.entryOf?_of_known taken.before top
      cases n with
      | tried => exact ⟨_, there, rfl, rfl⟩
      | made => cases absent.symm.trans (known _ rfl)
  | aside _ ha => cases ha

/-- A call that has made an instance with the gate held has nothing left to do but to publish. -/
theorem tried_kept (taken : Taken terms keys calls s c a r calls' keys' s') {c' : ClientId}
    {x : Call} (hx : x ∈ calls c') {slot : SlotId} {inst : Instance}
    (hs : x.stage = .tried slot (.ok inst)) (unpublished : ∀ e, a ≠ .publish slot e) :
    x ∈ Function.update calls c calls' c' := by
  cases taken.fate hx with
  | stays there => exact there
  | steps _ next there =>
      obtain ⟨k, mode, offer, old⟩ := x
      simp only at hs
      subst hs
      cases next with
      | publishMade => exact absurd rfl (unpublished _)
      | observe => exact there
  | ends _ comes_back =>
      have free := comes_back.free.1
      rw [hs] at free
      cases free

/-- The entry that comes of such a call holds what it has made. -/
theorem publishes_made {slot slot' : SlotId} {e : Entry} {r : Entry}
    (taken : Taken terms keys calls s c (.publish slot' e) r calls' keys' s')
    (rec : Recorded keys calls s h) {c' : ClientId} {x : Call} (hx : x ∈ calls c')
    (hk : x.key = e.key) {inst : Instance} (hs : x.stage = .tried slot (.ok inst)) :
    c = c' ∧ slot' = slot ∧ e.resolution.instance? = some inst := by
  obtain ⟨mode, offer, stage, rest, hcs, -, -, vacant, how⟩ := taken.publisher
  have top : (⟨e.key, mode, offer, stage⟩ : Call) ∈ calls c := by simp [hcs]
  obtain ⟨rfl, rfl⟩ := rec.gate_unique taken.before top hx hk.symm
    (Stage.gate?_of_vacancy? vacant) (by rw [hs]; rfl)
  simp only at hs
  cases how with
  | inl left =>
      obtain ⟨hv, -⟩ := left
      cases hv.symm.trans hs
  | inr right =>
      obtain ⟨inst', ht, hi⟩ := right
      cases ht.symm.trans hs
      exact ⟨rfl, rfl, hi⟩

theorem made_kept (taken : Taken terms keys calls s c a r calls' keys' s')
    (calm : a ≠ .clearEntries) (rec : Recorded keys calls s h) (absent : s.entryOf? key = none)
    {c' : ClientId} {x : Call} (hx : x ∈ calls c') (hk : x.key = key) {slot : SlotId}
    {inst : Instance} (hs : x.stage = .tried slot (.ok inst))
    (other : ∀ slot e, a = .publish slot e → e.key ≠ key) :
    s'.entryOf? key = none ∧ x ∈ Function.update calls c calls' c' := by
  refine ⟨by rw [taken.entryOf?_same calm rec.indexed other, absent], taken.tried_kept hx hs ?_⟩
  intro e ha
  apply other slot e ha
  subst ha
  have mine := taken.before.slot c' x hx slot (by rw [hs]; rfl)
  rw [← hk]
  exact Option.some.inj (taken.publish.2.1.symm.trans mine)

end Taken

theorem Offered.start (key : Key) : Offered key (fun _ => []) .empty [] where
  published := by simp
  begun := by simp
  made := by simp

theorem Offered.kept (terms : Terms) (key : Key) :
    KeptCalm terms fun _ calls s h => Offered key calls s h := by
  intro keys calls s c a r calls' keys' s' h taken calm rec old
  refine ⟨?_, ?_, ?_⟩
  · intro c' slot e r' h' hs hk
    cases List.suffix_cons_iff.1 hs with
    | inl eq =>
        cases eq
        exact hk ▸ taken.offered rec
    | inr hs => exact old.published c' slot e r' h' hs hk
  · intro c' slot p run h' hs
    cases List.suffix_cons_iff.1 hs with
    | inl eq =>
        cases eq
        exact taken.begun rec
    | inr hs => exact old.begun c' slot p run h' hs
  · intro c' slot p run o inst h' hs unpublished
    cases List.suffix_cons_iff.1 hs with
    | inl eq =>
        cases eq
        rw [rec.published] at unpublished
        have absent : s.entryOf? key = none := by
          cases he : s.entryOf? key with
          | none => rfl
          | some e => simp [he] at unpublished
        refine .inr ⟨?_, taken.tried rec absent⟩
        rw [taken.entryOf?_eq calm rec.indexed (by simp), absent]
    | inr hs =>
        cases old.made c' slot p run o inst h' hs unpublished with
        | inl left =>
            obtain ⟨e, r', hm, hk, hi⟩ := left
            exact .inl ⟨e, r', List.mem_cons_of_mem _ hm, hk, hi⟩
        | inr right =>
            obtain ⟨absent, x, hx, hk, hst⟩ := right
            by_cases hp : ∃ slot e, a = .publish slot e ∧ e.key = key
            · obtain ⟨slot', e, rfl, rfl⟩ := hp
              obtain ⟨rfl, rfl, hi⟩ := taken.publishes_made rec hx hk hst
              exact .inl ⟨e, r, List.mem_cons_self, rfl, hi⟩
            · obtain ⟨still, there⟩ := taken.made_kept calm rec absent hx hk hst
                fun slot' e ha hk' => hp ⟨slot', e, ha, hk'⟩
              exact .inr ⟨still, x, there, hk, hst⟩

theorem Offered.made_held {terms : Terms} {keys : List Key} {calls : ClientId → List Call}
    {s : Store} {h h' : History} {key : Key} (offered : Offered key calls s h)
    (rec : Recorded keys calls s h) (tenure : Tenure terms keys calls s) {c : ClientId}
    {slot : SlotId} {p : ProducerId} {run : Nat} {o : Outcome} {inst : Instance}
    (ended : ⟨c, .endRun slot key p run o, .ok inst⟩ :: h' <:+ h)
    (unpublished : History.published key h' = []) :
    (∃ e r, ⟨c, .publish slot e, r⟩ ∈ h ∧ e.key = key ∧ e.resolution.instance? = some inst) ∨
      s.entryOf? key = none ∧ h.holder slot = some c := by
  refine (offered.made c slot p run o inst h' ended unpublished).imp_right fun right => ?_
  obtain ⟨absent, x, hx, -, hs⟩ := right
  refine ⟨absent, ?_⟩
  rw [rec.holder]
  exact (tenure.gate slot c).2 ⟨x, hx, by rw [hs]; rfl⟩

/-- What the history tells of runs for `key` that began while there was no entry. -/
structure Sheltered (key : Key) (calls : ClientId → List Call) (s : Store) (h : History) :
    Prop where
  counted : ∀ c slot p run h', ⟨c, .beginRun slot key p, run⟩ :: h' <:+ h → run ≤ s.runs p
  making : ∀ c, ∀ x ∈ calls c, ∀ e p run, x.key = key → x.stage = .making e p run →
    run ≤ s.runs p ∧
      ∀ c' slot h', ⟨c', .beginRun slot key p, run⟩ :: h' <:+ h → History.published key h' ≠ []
  ended : ∀ c slot p run h', ⟨c, .beginRun slot key p, run⟩ :: h' <:+ h →
    History.published key h' = [] →
      ∀ c' slot' o r h'', ⟨c', .endRun slot' key p run o, r⟩ :: h'' <:+ h →
        History.published key h'' = []

theorem Sheltered.start (key : Key) : Sheltered key (fun _ => []) .empty [] where
  counted := by simp
  making := by simp
  ended := by simp

namespace Taken

variable {terms : Terms} {keys : List Key} {calls : ClientId → List Call} {s : Store}
  {c : ClientId} {a : Action} {r : a.Response} {calls' : List Call} {keys' : List Key} {s' : Store}
  {h : History} {key : Key}

theorem numbered {slot : SlotId} {p : ProducerId} {run : Nat}
    (taken : Taken terms keys calls s c (.beginRun slot key p) run calls' keys' s') :
    s.runs p < run ∧ run ≤ s'.runs p := by
  have hp := taken.performs
  simp only [Action.perform, Option.some.injEq, Prod.mk.injEq] at hp
  obtain ⟨rfl, -, rfl⟩ := hp
  exact ⟨Nat.lt_succ_self _, Nat.le_of_eq (if_pos rfl).symm⟩

theorem began_cases (taken : Taken terms keys calls s c a r calls' keys' s') {c' : ClientId}
    {slot : SlotId} {p : ProducerId} {run : Nat} {h' : History}
    (began : ⟨c', .beginRun slot key p, run⟩ :: h' <:+ ⟨c, a, r⟩ :: h) :
    h' = h ∧ s.runs p < run ∧ run ≤ s'.runs p ∨ ⟨c', .beginRun slot key p, run⟩ :: h' <:+ h := by
  cases List.suffix_cons_iff.1 began with
  | inl eq =>
      cases eq
      exact .inl ⟨rfl, taken.numbered⟩
  | inr earlier => exact .inr earlier

/-- A call that runs the producer of an entry ran it before the step, or it has just begun. -/
theorem making_cases (taken : Taken terms keys calls s c a r calls' keys' s')
    (rec : Recorded keys calls s h) {c' : ClientId} {x : Call}
    (hx : x ∈ Function.update calls c calls' c') {e : Entry} {p : ProducerId} {run : Nat}
    (hs : x.stage = .making e p run) :
    (∃ y ∈ calls c', y.key = x.key ∧ y.stage = .making e p run) ∨
      History.published x.key h ≠ [] ∧ s.runs p < run ∧ run ≤ s'.runs p := by
  cases taken.origin hx with
  | old there => exact .inl ⟨x, there, rfl, hs⟩
  | entered new => simp [new] at hs
  | @stepped call stage mine there next =>
      subst mine
      obtain ⟨k, mode, offer, old⟩ := call
      simp only at hs
      subst hs
      have known := rec.entryOf?_of_known taken.before there e
      cases next with
      | makeFresh | makeShared =>
          refine .inr ⟨?_, taken.numbered⟩
          simp [rec.published, known rfl]
      | observe => exact .inl ⟨_, there, rfl, rfl⟩

/-- A run that began while there was no entry is none of the entry, so there is none when it ends
either. -/
theorem ended {slot slot' : SlotId} {p : ProducerId} {run : Nat} {o : Outcome} {r : Resolved}
    (taken : Taken terms keys calls s c (.endRun slot' key p run o) r calls' keys' s')
    (rec : Recorded keys calls s h) (old : Sheltered key calls s h) {c' : ClientId} {h' : History}
    (began : ⟨c', .beginRun slot key p, run⟩ :: h' <:+ h)
    (unpublished : History.published key h' = []) : History.published key h = [] := by
  have move := taken.move
  generalize hcs : calls c = cs at move
  cases move with
  | @own call rest _ _ _ n =>
      obtain ⟨k, mode, offer, stage⟩ := call
      have top : (⟨k, mode, offer, stage⟩ : Call) ∈ calls c := by simp [hcs]
      cases n with
      | tried =>
          rw [rec.published, rec.entryOf?_of_vacant taken.before top rfl]
          rfl
      | made => exact absurd unpublished ((old.making c _ top _ p run rfl rfl).2 c' slot h' began)
  | aside _ ha => cases ha

end Taken

theorem Sheltered.kept (terms : Terms) (key : Key) :
    KeptCalm terms fun _ calls s h => Sheltered key calls s h := by
  intro keys calls s c a r calls' keys' s' h taken calm rec old
  have grown := Action.runs_le taken.performs
  refine ⟨?_, ?_, ?_⟩
  · intro c' slot p run h' began
    cases taken.began_cases began with
    | inl now => exact now.2.2
    | inr earlier => exact Nat.le_trans (old.counted c' slot p run h' earlier) (grown p)
  · intro c' x hx e p run hk hs
    subst hk
    cases taken.making_cases rec hx hs with
    | inl before =>
        obtain ⟨y, hy, hyk, hys⟩ := before
        obtain ⟨hle, there⟩ := old.making c' y hy e p run hyk hys
        refine ⟨Nat.le_trans hle (grown p), fun c'' slot h' began => ?_⟩
        cases taken.began_cases began with
        | inl now => exact absurd hle (Nat.not_le.2 now.2.1)
        | inr earlier => exact there c'' slot h' earlier
    | inr begun =>
        obtain ⟨published, new, hle⟩ := begun
        refine ⟨hle, fun c'' slot h' began => ?_⟩
        cases taken.began_cases began with
        | inl now => exact now.1 ▸ published
        | inr earlier => exact absurd (old.counted c'' slot p run h' earlier) (Nat.not_le.2 new)
  · intro c' slot p run h' began unpublished c'' slot' o r' h'' ended
    cases taken.began_cases began with
    | inl now =>
        have within : h'' <:+ h := by
          cases List.suffix_cons_iff.1 ended with
          | inl eq =>
              cases eq
              exact List.suffix_refl _
          | inr earlier => exact (List.suffix_cons _ _).trans earlier
        have published : History.published key h'' <:+ h.published key :=
          History.published_suffix within
        rw [now.1] at unpublished
        rw [unpublished] at published
        exact List.suffix_nil.1 published
    | inr earlier =>
        cases List.suffix_cons_iff.1 ended with
        | inl eq =>
            cases eq
            exact taken.ended rec old earlier unpublished
        | inr ended => exact old.ended c' slot p run h' earlier unpublished c'' slot' o r' h'' ended

/-- The entry of `key` is there from `m` to `m'`. -/
def Machine.Keeps (m m' : Machine) (key : Key) (e : Entry) : Prop :=
  ∀ m₁, m.Reaches m₁ → m₁.Reaches m' →
    m₁.store.entryOf? key = some e ∧ m₁.store.slotOf? key = some e.slot

theorem Machine.Keeps.after {m m₁ m' : Machine} {key : Key} {e : Entry} (keeps : m.Keeps m' key e)
    (reach : m.Reaches m₁) : m₁.Keeps m' key e :=
  fun m₂ h h' => keeps m₂ (reach.trans h) h'

theorem Machine.Keeps.policyOf {setting : Setting} {runner : Runner} {runtime : Runtime} {key : Key}
    {m m' : Machine} {c : ClientId} {trail : Trail} {κ : Reply → Program (List Reply)} {e : Entry}
    (keeps : m.Keeps m' key e)
    (hc : m.clients[c]? =
      some ⟨trail, ((Request.policyOf key).program setting runner runtime).bind κ⟩)
    (takes : m.Takes c 1 m') :
    m'.clients[c]? = some ⟨trail, κ (.policy (some e.policy))⟩ := by
  obtain ⟨m₁, m₂, r, trail', reach, reach', hp, hc, -, rest⟩ := takes.uncons hc
  simp only [Action.perform, Option.some.injEq, Prod.mk.injEq] at hp
  obtain ⟨rfl, rfl, -⟩ := hp
  rw [(keeps m₁ reach reach').1] at hc
  exact rest.none.trans hc

namespace EntryPoint

variable {setting : Setting} {runner : Runner} {runtime : Runtime} {key : Key} {mode : Mode}
  {m m' : Machine} {c : ClientId} {trail : Trail} {κ : Resolved → Program (List Reply)} {e : Entry}

/-- How many steps a call takes until it has the entry of its key, if there is one. -/
def lookups : EntryPoint mode → Nat
  | .read => 2
  | .register _ _ => 3

def leaving (mode : Mode) (key : Key) (before : List String) (result : Resolved) :
    Program Resolved := do
  Program.perform (.leave mode key before result)
  return result

def reading (setting : Setting) (runner : Runner) (runtime : Runtime) (key : Key) (e : Entry) :
    Mode → Program Resolved
  | .sync => return Program.checked key (← Program.readSync setting runner runtime e)
  | .async => return Program.checked key (← Program.readAsync setting runner runtime e)

theorem entered {offer : Option ProducerId} {body : Program Resolved} {n : Nat}
    (free : trail.refusal? key.name = none)
    (hc : m.clients[c]? = some ⟨trail, (Program.guarded mode key offer body).bind κ⟩)
    (takes : m.Takes c (n + 1) m') :
    ∃ m₁, m.Reaches m₁ ∧ m₁.Takes c n m' ∧
      m₁.clients[c]? = some ⟨trail.enter key.name mode,
        (body >>= leaving mode key trail.task).bind κ⟩ := by
  obtain ⟨m₁, m₂, r, trail', -, -, hp, hc, reach, rest⟩ := takes.uncons hc
  simp only [Action.perform, free, Option.some.injEq, Prod.mk.injEq] at hp
  obtain ⟨rfl, rfl, -⟩ := hp
  exact ⟨m₂, reach, rest, hc⟩

variable {tail : Resolved → Program Resolved} {next : Entry → Program Resolved}

theorem found {absent : Program Resolved}
    (hc : m.clients[c]? = some ⟨trail, ((do
      match ← Program.perform (.findEntry key) with
      | some entry => next entry
      | none => absent) >>= tail).bind κ⟩)
    (takes : m.Takes c 1 m') (keeps : m.Keeps m' key e) :
    m'.clients[c]? = some ⟨trail, (next e >>= tail).bind κ⟩ := by
  obtain ⟨m₁, m₂, r, trail', reach, reach', hp, hc, -, rest⟩ := takes.uncons hc
  simp only [Action.perform, Option.some.injEq, Prod.mk.injEq] at hp
  obtain ⟨rfl, rfl, -⟩ := hp
  rw [(keeps m₁ reach reach').1] at hc
  exact rest.none.trans hc

theorem claimed {register : SlotId → Program (Except ResolveError Entry)}
    (hc : m.clients[c]? = some ⟨trail, ((do
      let slot ← Program.perform (.claimSlot key)
      let entry ← match ← Program.perform (.readEntry slot) with
        | some entry => pure (.ok entry)
        | none => register slot
      match entry with
      | .ok entry => next entry
      | .error e => return .error e) >>= tail).bind κ⟩)
    (takes : m.Takes c 2 m') (keeps : m.Keeps m' key e) :
    m'.clients[c]? = some ⟨trail, (next e >>= tail).bind κ⟩ := by
  obtain ⟨m₁, m₂, r, trail', reach₁, reach', hp, hc, reach, rest⟩ := takes.uncons hc
  simp only [Action.perform, Option.some.injEq, Prod.mk.injEq] at hp
  obtain ⟨rfl, rfl, -⟩ := hp
  rw [Store.claim_of_some (keeps m₁ reach₁ reach').2] at hc
  obtain ⟨m₃, m₄, r, trail', reach₃, reach', hp, hc, -, rest⟩ := rest.uncons hc
  simp only [Action.perform, Option.some.injEq, Prod.mk.injEq] at hp
  obtain ⟨rfl, rfl, -⟩ := hp
  obtain ⟨there, slot⟩ := keeps.after reach m₃ reach₃ reach'
  simp only [Store.entryOf?, slot, Option.bind_some] at there
  rw [there] at hc
  exact rest.none.trans hc

/-- A call that is not refused resolves through the entry that is there. -/
theorem through (x : EntryPoint mode) (matched : ¬x.Mismatched)
    (free : trail.refusal? key.name = none)
    (hc : m.clients[c]? = some ⟨trail, (x.program setting runner runtime key).bind κ⟩)
    (takes : m.Takes c x.lookups m') (keeps : m.Keeps m' key e) :
    m'.clients[c]? = some ⟨trail.enter key.name mode,
      (reading setting runner runtime key e mode >>= leaving mode key trail.task).bind κ⟩ := by
  cases x with
  | read =>
      cases mode with
      | sync | async =>
          obtain ⟨m₁, reach, rest, hc⟩ := entered free hc takes
          exact found hc rest (keeps.after reach)
  | register policy producer =>
      simp only [Mismatched, ne_eq, Decidable.not_not] at matched
      cases mode with
      | sync =>
          simp only [program, Program.getOrRegister, Policy.isAsync, matched] at hc
          obtain ⟨m₁, reach, rest, hc⟩ := entered free hc takes
          exact claimed hc rest (keeps.after reach)
      | async =>
          simp only [program, Program.getOrRegisterAsync, Policy.isAsync, matched] at hc
          obtain ⟨m₁, reach, rest, hc⟩ := entered free hc takes
          exact claimed hc rest (keeps.after reach)

end EntryPoint

/-- What the first registration of a key settles. -/
structure FirstWins (setting : Setting) (m : Machine) (key : Key) : Prop where
  /-- At most one entry was ever published, and it is the one that is there. -/
  once : m.history.published key = (m.store.entryOf? key).toList
  /-- An observer is told once at most, and of the policy of that entry. -/
  told : ∀ i, m.history.told i key = [] ∨
    ∃ e, m.store.entryOf? key = some e ∧ i < setting.observers ∧ m.history.told i key = [e.policy]
  /-- Every observer has been told when the call that published lets go of the gate. -/
  all_told : ∀ c slot e r, ⟨c, .publish slot e, r⟩ ∈ m.history → e.key = key →
    m.history.holder slot ≠ some c →
      ∀ i, i < setting.observers → m.history.told i key = [e.policy]
  stays : ∀ e, m.store.entryOf? key = some e →
    ∀ m', m.Reaches m' → m'.history.Calm → m'.store.entryOf? key = some e
  policy : ∀ e, m.store.entryOf? key = some e → ∀ c trail κ runner runtime m',
    m.clients[c]? = some ⟨trail, ((Request.policyOf key).program setting runner runtime).bind κ⟩ →
      m.Takes c 1 m' → m'.history.Calm →
        m'.clients[c]? = some ⟨trail, κ (.policy (some e.policy))⟩
  /-- Every call that is not refused comes to read the entry. -/
  through : ∀ e, m.store.entryOf? key = some e → ∀ c trail κ runner runtime m' mode,
    ∀ x : EntryPoint mode, ¬x.Mismatched → trail.refusal? key.name = none →
      m.clients[c]? = some ⟨trail, (x.program setting runner runtime key).bind κ⟩ →
        m.Takes c x.lookups m' → m'.history.Calm →
          m'.clients[c]? = some ⟨trail.enter key.name mode,
            (EntryPoint.reading setting runner runtime key e mode >>=
              EntryPoint.leaving mode key trail.task).bind κ⟩
  /-- The call that published was handed the producer of the entry, or the one that has made its
  instance. -/
  published : ∀ c slot e r h, ⟨c, .publish slot e, r⟩ :: h <:+ m.history → e.key = key →
    ∃ offer, (History.active c h).head? = some (key, offer) ∧
      (e.resolution.producer? = offer ∨
        ∃ inst, e.resolution.instance? = some inst ∧ offer = some inst.producer)
  /-- A run is one of the entry, or of a producer that was handed to a call which holds the gate
  while there is no entry. -/
  begun : ∀ c slot p run h, ⟨c, .beginRun slot key p, run⟩ :: h <:+ m.history →
    (∃ e, History.published key h = [e] ∧ e.resolution.producer? = some p) ∨
      History.published key h = [] ∧ History.holder slot h = some c ∧
        (History.active c h).head? = some (key, some p)
  /-- While such a run goes on, nothing is published. -/
  ended : ∀ c slot p run h, ⟨c, .beginRun slot key p, run⟩ :: h <:+ m.history →
    History.published key h = [] →
      ∀ c' slot' o r h', ⟨c', .endRun slot' key p run o, r⟩ :: h' <:+ m.history →
        History.published key h' = []
  /-- If a run that ended so has not failed, its call has published the instance or is about to. -/
  made : ∀ c slot p run o inst h, ⟨c, .endRun slot key p run o, .ok inst⟩ :: h <:+ m.history →
    History.published key h = [] →
      (∃ e r, ⟨c, .publish slot e, r⟩ ∈ m.history ∧ e.key = key ∧
        e.resolution.instance? = some inst) ∨
        m.store.entryOf? key = none ∧ m.history.holder slot = some c

section Reached

variable {setting : Setting} {jobs : List (List Demand)} {m m' : Machine} {key : Key} {e : Entry}

theorem Machine.Reaches.published (reach : (Machine.start setting jobs).Reaches m)
    (calm : m.history.Calm) : m.history.published key = (m.store.entryOf? key).toList := by
  obtain ⟨keys, calls, -, rec, -⟩ :=
    reach.recorded calm (J := fun _ _ _ _ => True) trivial fun _ _ _ _ => trivial
  exact rec.published key

theorem Machine.Reaches.slotOf?_eq (reach : (Machine.start setting jobs).Reaches m)
    (he : m.store.entryOf? key = some e) : m.store.slotOf? key = some e.slot := by
  obtain ⟨keys, calls, conducted, -⟩ :=
    reach.conducted (J := fun _ _ _ _ => True) trivial fun _ _ => trivial
  obtain ⟨id, hs, hi⟩ := Option.bind_eq_some_iff.1 he
  obtain ⟨_, -, suits⟩ := conducted.tenure.entry id e hi
  rw [hs, suits.slot]

theorem Machine.Reaches.keeps (reach : (Machine.start setting jobs).Reaches m)
    (he : m.store.entryOf? key = some e) (reach' : m.Reaches m') (calm : m'.history.Calm) :
    m'.store.entryOf? key = some e := by
  have now : m.history.published key = (m.store.entryOf? key).toList :=
    reach.published (calm.suffix reach'.suffix)
  have later : m'.history.published key = (m'.store.entryOf? key).toList :=
    (reach.trans reach').published calm
  have hs : m.history.published key <:+ m'.history.published key :=
    History.published_suffix reach'.suffix
  rw [now, later, he] at hs
  cases he' : m'.store.entryOf? key with
  | none => simp [he'] at hs
  | some e' =>
      obtain ⟨more, hm⟩ := hs
      rw [he'] at hm
      cases more with
      | nil =>
          cases hm
          rfl
      | cons => simp at hm

/-- The first registration of a key wins, whatever clients do in a run without reset. -/
theorem first_registration_wins (reach : (Machine.start setting jobs).Reaches m)
    (calm : m.history.Calm) (key : Key) : FirstWins setting m key := by
  obtain ⟨keys, calls, conducted, rec, announced, offered, sheltered⟩ :=
    reach.recorded calm
      (J := fun _ calls s h => Announced setting.observers key calls s h ∧
        Offered key calls s h ∧ Sheltered key calls s h)
      ⟨.start _ _, .start _, .start _⟩
      fun taken quiet rec old => ⟨Announced.kept _ key taken quiet rec old.1,
        Offered.kept _ key taken quiet rec old.2.1, Sheltered.kept _ key taken quiet rec old.2.2⟩
  have keeps : ∀ {e}, m.store.entryOf? key = some e → ∀ {m'}, m.Reaches m' → m'.history.Calm →
      m.Keeps m' key e := by
    intro e he m' _ calm' m₁ h h'
    have there := reach.keeps he h (calm'.suffix h'.suffix)
    exact ⟨there, (reach.trans h).slotOf?_eq there⟩
  refine ⟨rec.published key, announced.told, ?_, ?_, ?_, ?_, offered.published, offered.begun,
    sheltered.ended, ?_⟩
  · intro c slot e r hm hk free i hi
    exact announced.all_told rec conducted.tenure hm hk free hi
  · intro e he m' reach' calm'
    exact reach.keeps he reach' calm'
  · intro e he c trail κ runner runtime m' hc takes calm'
    exact (keeps he takes.reaches calm').policyOf hc takes
  · intro e he c trail κ runner runtime m' mode x matched free hc takes calm'
    exact x.through matched free hc takes (keeps he takes.reaches calm')
  · intro c slot p run o inst h hs unpublished
    exact offered.made_held rec conducted.tenure hs unpublished

end Reached

def mailerKey : Key := ⟨"app::Mailer", "Mailer"⟩

def mailerSetting : Setting := ⟨1, fun _ => ⟨.factory, fun _ _ => .finish (.ok ⟨none, []⟩)⟩⟩

def mailerJobs : List (List Demand) :=
  [[⟨.inl (.register mailerKey .singleton fun _ => .finish (.ok ⟨none, []⟩)), .plain⟩],
    [⟨.inr (.registerAsync mailerKey .lazySingletonAsync fun _ => .finish (.ok ⟨none, []⟩)),
      .task⟩]]

theorem plain_registration_of_mailer_wins :
    ∃ m, (Machine.start mailerSetting mailerJobs).Reaches m ∧ m.history.Calm ∧
      (m.store.entryOf? mailerKey).map Entry.policy = some .singleton ∧
      m.history.length = 22 ∧ FirstWins mailerSetting m mailerKey := by
  obtain ⟨m, reach, calm, plain, all⟩ := Machine.exists_of_follow
    (m := Machine.start mailerSetting mailerJobs)
    [0, 1, 0, 1, 0, 1, 0, 1, 0, 0, 0, 0, 0, 0, 0, 0, 0, 0, 1, 1, 1, 1]
    (P := fun m => m.history.Calm ∧
      (m.store.entryOf? mailerKey).map Entry.policy = some .singleton ∧
      m.history.length = 22) (by decide +kernel)
  exact ⟨m, reach, calm, plain, all, first_registration_wins reach calm mailerKey⟩

end Wiring.Registry
