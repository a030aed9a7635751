import Mathlib

/-! Hash chains over arbitrary events and hashes. A record carries its position, its event, the hash of
    the record before it and its own hash; `Linked` is the well-formedness a verifier checks, from a
    start position and a start hash. Facts about two linked chains drive everything else: a sublist of a
    chain that is linked is a prefix (`prefix_of_sublist`), a permutation is the identity (`eq_of_perm`),
    one common hash at one position commits both chains to one history up to it (`take_eq_of_hash`), and
    a common tail hash to one history whatever their lengths (`eq_of_tailHash`). From them
    `linked_iff_of_tampered`: tampering stays linked exactly when it is confined to the tail. -/

namespace HashChain

/-- An event with its position and its hash links. -/
structure Record (E H : Type*) where
  seq : ℤ
  event : E
  prevHash : H
  eventHash : H

variable {E H : Type*} (digest : H → E → H)

/-- The chain is contiguous from `n`, its first record points at `h`, and every hash is recomputed. -/
def Linked : ℤ → H → List (Record E H) → Prop
  | _, _, [] => True
  | n, h, r :: rs =>
    r.seq = n ∧ r.prevHash = h ∧ r.eventHash = digest r.prevHash r.event ∧
      Linked (n + 1) r.eventHash rs

/-- The hash the next record of a chain points at. -/
def endHash : H → List (Record E H) → H
  | h, [] => h
  | _, r :: rs => endHash r.eventHash rs

/-- The record that extends a chain with the given last record. -/
def next (genesis : H) (tail : Option (Record E H)) (e : E) : Record E H :=
  let seq := match tail with | none => 0 | some t => t.seq + 1
  let prevHash := match tail with | none => genesis | some t => t.eventHash
  ⟨seq, e, prevHash, digest prevHash e⟩

/-- Extend a chain by one event. -/
def append (genesis : H) (rs : List (Record E H)) (e : E) : List (Record E H) :=
  rs ++ [next digest genesis rs.getLast? e]

/-- The chain of a list of events. -/
def build (genesis : H) (es : List E) : List (Record E H) := es.foldl (append digest genesis) []

/-- No two records of the list hash alike unless they hash the same input. -/
def CollisionFree (rs : List (Record E H)) : Prop :=
  ∀ a ∈ rs, ∀ b ∈ rs, digest a.prevHash a.event = digest b.prevHash b.event →
    a.prevHash = b.prevHash ∧ a.event = b.event

variable {digest}

/-! ### Structure of linked chains -/

theorem linked_append {a b : List (Record E H)} : ∀ {n : ℤ} {h : H},
    Linked digest n h (a ++ b) ↔
      Linked digest n h a ∧ Linked digest (n + a.length) (endHash h a) b := by
  induction a with
  | nil => simp [Linked, endHash]
  | cons r rs ih =>
    intro n h
    have hn : n + ((rs.length + 1 : ℕ) : ℤ) = n + 1 + rs.length := by push_cast; ring
    simp only [List.cons_append, Linked, List.length_cons, endHash, ih, hn, and_assoc]

theorem linked_take {rs : List (Record E H)} {n : ℤ} {h : H} (k : ℕ) (hl : Linked digest n h rs) :
    Linked digest n h (rs.take k) := by
  rw [← List.take_append_drop k rs] at hl
  exact (linked_append.mp hl).1

theorem endHash_append (h : H) (b : List (Record E H)) : ∀ a : List (Record E H),
    endHash h (a ++ b) = endHash (endHash h a) b := by
  intro a
  induction a generalizing h with
  | nil => rfl
  | cons r rs ih => exact ih r.eventHash

theorem endHash_eq_getLast? (h : H) (rs : List (Record E H)) :
    endHash h rs = (rs.getLast?.map Record.eventHash).getD h := by
  rcases List.eq_nil_or_concat' rs with rfl | ⟨init, last, rfl⟩
  · rfl
  · rw [endHash_append, List.getLast?_concat]; rfl

theorem endHash_take_succ {rs : List (Record E H)} {k : ℕ} {r : Record E H} (h : H)
    (hk : rs[k]? = some r) : endHash h (rs.take (k + 1)) = r.eventHash := by
  rw [List.take_add_one, hk, endHash_append]
  rfl

/-- Positions in a linked chain never fall below its start. -/
theorem le_seq_of_mem {r : Record E H} : ∀ {rs : List (Record E H)} {n : ℤ} {h : H},
    Linked digest n h rs → r ∈ rs → n ≤ r.seq
  | x :: xs, n, h, ⟨hseq, _, _, hl⟩, hr => by
      rcases List.mem_cons.mp hr with rfl | hr
      · exact hseq.ge
      · have := le_seq_of_mem hl hr
        omega

/-- A linked sublist of a linked chain is a prefix: the positions leave no other place. -/
theorem prefix_of_sublist : ∀ {a b : List (Record E H)} {n : ℤ} {h h' : H},
    Linked digest n h a → Linked digest n h' b → a.Sublist b → a <+: b
  | [], b, _, _, _, _, _, _ => List.nil_prefix
  | x :: xs, [], _, _, _, _, _, hs => absurd (List.sublist_nil.mp hs) (by simp)
  | x :: xs, y :: ys, n, h, h', ⟨hx, _, _, ha⟩, ⟨_, _, _, hb⟩, hs => by
      cases hs with
      | cons _ hs =>
        have := le_seq_of_mem hb (hs.subset List.mem_cons_self)
        omega
      | cons_cons _ hs =>
        exact List.cons_prefix_cons.mpr ⟨rfl, prefix_of_sublist ha hb hs⟩

theorem pairwise_seq : ∀ {rs : List (Record E H)} {n : ℤ} {h : H}, Linked digest n h rs →
    rs.Pairwise (fun a b => a.seq < b.seq)
  | [], _, _, _ => List.Pairwise.nil
  | r :: rs, n, h, ⟨hseq, _, _, hl⟩ => by
      refine List.pairwise_cons.mpr ⟨fun x hx => ?_, pairwise_seq hl⟩
      have := le_seq_of_mem hl hx
      omega

/-- The record at a place: its position, the hash it points at and its own hash. -/
theorem get_of_linked {rs : List (Record E H)} {n : ℤ} {h : H} {k : ℕ} {r : Record E H}
    (hl : Linked digest n h rs) (hk : rs[k]? = some r) :
    r.seq = n + k ∧ r.prevHash = endHash h (rs.take k) ∧ r.eventHash = digest r.prevHash r.event := by
  obtain ⟨hlt, hr⟩ := List.getElem?_eq_some_iff.mp hk
  rw [← List.take_append_drop k rs, List.drop_eq_getElem_cons hlt, hr] at hl
  obtain ⟨-, hseq, hprev, hhash, -⟩ := linked_append.mp hl
  refine ⟨?_, hprev, hhash⟩
  rw [hseq, List.length_take, min_eq_left hlt.le]

/-- Two linked chains with the same records are the same chain. -/
theorem eq_of_perm : ∀ {a b : List (Record E H)} {n : ℤ} {h h' : H},
    Linked digest n h a → Linked digest n h' b → a.Perm b → a = b
  | [], b, _, _, _, _, _, hp => (List.nil_perm.mp hp).symm
  | x :: xs, [], _, _, _, _, _, hp => absurd hp.length_eq (by simp)
  | x :: xs, y :: ys, n, h, h', ⟨hx, _, _, ha⟩, ⟨hy, _, _, hb⟩, hp => by
      have hxy : x = y := by
        rcases List.mem_cons.mp (hp.subset List.mem_cons_self) with heq | hmem
        · exact heq
        · have := le_seq_of_mem hb hmem
          omega
      subst hxy
      rw [eq_of_perm ha hb (List.Perm.cons_inv hp)]

/-! ### Commitment -/

theorem CollisionFree.mono {a b : List (Record E H)} (h : CollisionFree digest b) (hsub : a ⊆ b) :
    CollisionFree digest a :=
  fun x hx y hy => h x (hsub hx) y (hsub hy)

/-- Two linked chains of one length that end in the same hash are the same chain. -/
theorem eq_of_endHash : ∀ {a b : List (Record E H)} {n : ℤ} {h h' : H},
    Linked digest n h a → Linked digest n h' b → CollisionFree digest (a ++ b) →
    a.length = b.length → endHash h a = endHash h' b → a = b ∧ h = h'
  | [], [], _, _, _, _, _, _, _, hend => ⟨rfl, hend⟩
  | [], _ :: _, _, _, _, _, _, _, hlen, _ => by simp at hlen
  | _ :: _, [], _, _, _, _, _, _, hlen, _ => by simp at hlen
  | x :: xs, y :: ys, n, h, h', ⟨hxs, hxp, hxh, ha⟩, ⟨hys, hyp, hyh, hb⟩, hcf, hlen, hend => by
      have hsub : xs ++ ys ⊆ x :: xs ++ y :: ys := by
        intro r hr; simp only [List.cons_append, List.mem_cons, List.mem_append] at hr ⊢; tauto
      obtain ⟨rfl, hhash⟩ := eq_of_endHash ha hb (hcf.mono hsub) (by simpa using hlen) hend
      obtain ⟨hprev, hevent⟩ := hcf x (by simp) y (by simp) (by rw [← hxh, ← hyh, hhash])
      have hxy : x = y := by
        cases x; cases y
        simp only at hxs hys hprev hevent hhash
        rw [hxs, hys, hprev, hevent, hhash]
      exact ⟨by rw [hxy], by rw [← hxp, ← hyp, hprev]⟩

/-- One common hash at one position commits two linked chains to the same history up to it. -/
theorem take_eq_of_hash {a b : List (Record E H)} {n : ℤ} {h h' : H} {k : ℕ} {x y : Record E H}
    (ha : Linked digest n h a) (hb : Linked digest n h' b) (hcf : CollisionFree digest (a ++ b))
    (hx : a[k]? = some x) (hy : b[k]? = some y) (hhash : x.eventHash = y.eventHash) :
    a.take (k + 1) = b.take (k + 1) := by
  obtain ⟨hka, -⟩ := List.getElem?_eq_some_iff.mp hx
  obtain ⟨hkb, -⟩ := List.getElem?_eq_some_iff.mp hy
  refine (eq_of_endHash (linked_take (k + 1) ha) (linked_take (k + 1) hb) (hcf.mono ?_) ?_ ?_).1
  · intro r hr
    exact List.mem_append.mpr ((List.mem_append.mp hr).imp List.mem_of_mem_take List.mem_of_mem_take)
  · rw [List.length_take, List.length_take]; omega
  · rw [endHash_take_succ h hx, endHash_take_succ h' hy, hhash]

/-- One common tail hash commits two linked chains of any lengths to the same history, where no record
    hashes to the start hash: the walk back from the tails cannot end in one chain before the other. -/
theorem eq_of_tailHash {a b : List (Record E H)} {n : ℤ} {h : H} (ha : Linked digest n h a)
    (hb : Linked digest n h b) (hcf : CollisionFree digest (a ++ b))
    (hstart : ∀ r ∈ a ++ b, digest r.prevHash r.event ≠ h) (hend : endHash h a = endHash h b) :
    a = b := by
  induction a using List.reverseRecOn generalizing b with
  | nil =>
    rcases List.eq_nil_or_concat' b with rfl | ⟨b, y, rfl⟩
    · rfl
    · obtain ⟨-, -, -, hy, -⟩ := linked_append.mp hb
      rw [endHash_append] at hend
      exact absurd (hy.symm.trans hend.symm) (hstart y (by simp))
  | append_singleton a x ih =>
    obtain ⟨ha, hxs, hxp, hx, -⟩ := linked_append.mp ha
    rcases List.eq_nil_or_concat' b with rfl | ⟨b, y, rfl⟩
    · rw [endHash_append] at hend
      exact absurd (hx.symm.trans hend) (hstart x (by simp))
    · obtain ⟨hb, hys, hyp, hy, -⟩ := linked_append.mp hb
      rw [endHash_append, endHash_append] at hend
      have hhash : x.eventHash = y.eventHash := hend
      obtain ⟨hprev, hevent⟩ := hcf x (by simp) y (by simp) (by rw [← hx, ← hy, hhash])
      have hsub : a ++ b ⊆ a ++ [x] ++ (b ++ [y]) := by
        intro r hr; simp only [List.mem_append] at hr ⊢; tauto
      obtain rfl : a = b := ih ha hb (hcf.mono hsub) (fun r hr => hstart r (hsub hr))
        (by rw [← hxp, ← hyp, hprev])
      have hxy : x = y := by
        cases x; cases y
        simp only at hxs hys hprev hevent hhash
        rw [hxs, hys, hprev, hevent, hhash]
      rw [hxy]

/-- In a linked chain no two records point at one hash, where no record hashes to the start hash. -/
theorem eq_of_prevHash {rs : List (Record E H)} {n : ℤ} {h : H} {j k : ℕ} {x y : Record E H}
    (hl : Linked digest n h rs) (hcf : CollisionFree digest rs)
    (hstart : ∀ r ∈ rs, digest r.prevHash r.event ≠ h) (hj : rs[j]? = some x) (hk : rs[k]? = some y)
    (heq : x.prevHash = y.prevHash) : j = k := by
  have hsub : rs.take j ++ rs.take k ⊆ rs := by
    intro r hr
    rcases List.mem_append.mp hr with hr | hr <;> exact List.mem_of_mem_take hr
  have htake : rs.take j = rs.take k :=
    eq_of_tailHash (linked_take j hl) (linked_take k hl) (hcf.mono hsub) (fun r hr => hstart r (hsub hr))
      (by rw [← (get_of_linked hl hj).2.1, ← (get_of_linked hl hk).2.1, heq])
  obtain ⟨hjlt, -⟩ := List.getElem?_eq_some_iff.mp hj
  obtain ⟨hklt, -⟩ := List.getElem?_eq_some_iff.mp hk
  have hlen := congrArg List.length htake
  rwa [List.length_take, List.length_take, min_eq_left hjlt.le, min_eq_left hklt.le] at hlen

/-! ### Other readings of the events -/

/-- A record with its event read another way. -/
def Record.mapEvent {E' : Type*} (f : E → E') (r : Record E H) : Record E' H :=
  ⟨r.seq, f r.event, r.prevHash, r.eventHash⟩

/-- A chain whose digest reads its events through `f` is a chain of what `f` reads. -/
theorem linked_mapEvent {E' : Type*} (digest' : H → E' → H) (f : E → E') : ∀ {rs : List (Record E H)}
    {n : ℤ} {h : H}, Linked (fun p e => digest' p (f e)) n h rs ↔
      Linked digest' n h (rs.map (Record.mapEvent f)) := by
  intro rs
  induction rs with
  | nil => simp [Linked]
  | cons r rs ih => intro n h; simp only [List.map_cons, Linked, Record.mapEvent, ih]

/-- Two digests that agree on the records of a chain link it alike. -/
theorem linked_congr {digest' : H → E → H} : ∀ {rs : List (Record E H)} {n : ℤ} {h : H},
    (∀ r ∈ rs, digest' r.prevHash r.event = digest r.prevHash r.event) →
    (Linked digest' n h rs ↔ Linked digest n h rs)
  | [], _, _, _ => Iff.rfl
  | r :: rs, n, h, heq => by
      rw [Linked, Linked, heq r List.mem_cons_self,
        linked_congr fun x hx => heq x (List.mem_cons_of_mem r hx)]

/-! ### Building a chain -/

theorem linked_append_next {genesis : H} {rs : List (Record E H)} (hl : Linked digest 0 genesis rs)
    (e : E) : Linked digest 0 genesis (append digest genesis rs e) := by
  rw [append, linked_append]
  refine ⟨hl, ?_⟩
  rcases List.eq_nil_or_concat rs with rfl | ⟨init, last, rfl⟩
  · exact ⟨rfl, rfl, rfl, trivial⟩
  · rw [List.concat_eq_append] at hl ⊢
    obtain ⟨-, hseq, -, -, -⟩ := linked_append.mp hl
    rw [List.getLast?_concat, endHash_append]
    refine ⟨?_, rfl, rfl, trivial⟩
    simp only [next, List.length_append, List.length_singleton, Nat.cast_add, Nat.cast_one]
    omega

theorem linked_foldl_append {genesis : H} : ∀ (es : List E) (rs : List (Record E H)),
    Linked digest 0 genesis rs → Linked digest 0 genesis (es.foldl (append digest genesis) rs)
  | [], _, hl => hl
  | e :: es, _, hl => linked_foldl_append es _ (linked_append_next hl e)

theorem map_event_foldl_append {genesis : H} : ∀ (es : List E) (rs : List (Record E H)),
    (es.foldl (append digest genesis) rs).map Record.event = rs.map Record.event ++ es
  | [], rs => (List.append_nil _).symm
  | e :: es, rs => by
      rw [List.foldl_cons, map_event_foldl_append es, append, List.map_append, List.append_assoc]
      rfl

/-- A chain holds the events it was built of. -/
theorem map_event_build (genesis : H) (es : List E) : (build digest genesis es).map Record.event = es :=
  map_event_foldl_append es []

theorem linked_build (genesis : H) (es : List E) : Linked digest 0 genesis (build digest genesis es) :=
  linked_foldl_append es [] trivial

/-! ### Tampering -/

variable (digest)

/-- All records after an edited one were linked anew, every hash of theirs changed. -/
def Relinked (x' : Record E H) (post post' : List (Record E H)) : Prop :=
  post' ≠ [] ∧ Linked digest (x'.seq + 1) x'.eventHash post' ∧
    ∀ (k : ℕ) (y y' : Record E H), post[k]? = some y → post'[k]? = some y' → y'.eventHash ≠ y.eventHash

/-- The ways to tamper with a chain: drop records, add records, reorder them, or edit some of them
    without relinking everything after the first edit. -/
inductive Tampered : List (Record E H) → List (Record E H) → Prop
  | deleted {r r'} : r'.Sublist r → r' ≠ r → Tampered r r'
  | inserted {r r'} : r.Sublist r' → r' ≠ r → Tampered r r'
  | permuted {r r'} : r.Perm r' → r' ≠ r → Tampered r r'
  | edited {pre x x' post post'} : x' ≠ x → post'.length = post.length →
      ¬Relinked digest x' post post' → Tampered (pre ++ x :: post) (pre ++ x' :: post')

/-- Tampering confined to the tail: the end was cut off, or linked records were added at the end, or
    the last record was exchanged for another linked one. -/
inductive TailTampered (genesis : H) : List (Record E H) → List (Record E H) → Prop
  | truncated {r r'} : r' <+: r → r' ≠ r → TailTampered genesis r r'
  | extended {r more} : more ≠ [] → Linked digest r.length (endHash genesis r) more →
      TailTampered genesis r (r ++ more)
  | exchanged {pre x x'} : x' ≠ x → x'.seq = x.seq → x'.prevHash = x.prevHash →
      x'.eventHash = digest x'.prevHash x'.event → TailTampered genesis (pre ++ [x]) (pre ++ [x'])

variable {digest}

/-- An edit that leaves the chain linked and keeps one later hash was no edit. -/
theorem relinked_of_linked {genesis : H} {pre post post' : List (Record E H)} {x x' : Record E H}
    (hl : Linked digest 0 genesis (pre ++ x :: post)) (hl' : Linked digest 0 genesis (pre ++ x' :: post'))
    (hcf : CollisionFree digest (pre ++ x :: post ++ (pre ++ x' :: post'))) (hne : x' ≠ x)
    (hpost : post' ≠ []) : Relinked digest x' post post' := by
  obtain ⟨-, hseq, -, -, hrest⟩ := linked_append.mp hl'
  rw [← hseq] at hrest
  refine ⟨hpost, hrest, fun k y y' hy hy' hhash => hne ?_⟩
  have hget : ∀ (z : Record E H) (zs : List (Record E H)),
      (pre ++ z :: zs)[pre.length + (k + 1)]? = zs[k]? := by
    intro z zs; rw [List.getElem?_append_right (by omega), Nat.add_sub_cancel_left]; rfl
  have htake := take_eq_of_hash (k := pre.length + (k + 1)) hl hl' hcf ((hget x post).trans hy)
    ((hget x' post').trans hy') hhash.symm
  have hx := congrArg (fun l => l[pre.length]?) htake
  simp only [List.getElem?_take, show pre.length < pre.length + (k + 1) + 1 by omega, if_true,
    List.getElem?_append_right (Nat.le_refl pre.length), Nat.sub_self,
    List.getElem?_cons_zero, Option.some.injEq] at hx
  exact hx.symm

theorem linked_of_tailTampered {genesis : H} {r r' : List (Record E H)}
    (hl : Linked digest 0 genesis r) (ht : TailTampered digest genesis r r') :
    Linked digest 0 genesis r' := by
  cases ht with
  | truncated hpre hne =>
    obtain ⟨t, rfl⟩ := hpre
    exact (linked_append.mp hl).1
  | extended hne hmore => exact linked_append.mpr ⟨hl, by rwa [zero_add]⟩
  | exchanged hne hseq hprev hhash =>
    obtain ⟨hpre, hxs, hxp, -, -⟩ := linked_append.mp hl
    exact linked_append.mpr ⟨hpre, hseq.trans hxs, hprev.trans hxp, hhash, trivial⟩

/-- Tampering goes unnoticed by the chain's own links exactly when it is confined to the tail. -/
theorem linked_iff_of_tampered {genesis : H} {r r' : List (Record E H)}
    (hl : Linked digest 0 genesis r) (ht : Tampered digest r r')
    (hcf : Linked digest 0 genesis r' → CollisionFree digest (r ++ r')) :
    Linked digest 0 genesis r' ↔ TailTampered digest genesis r r' := by
  refine ⟨fun hl' => ?_, linked_of_tailTampered hl⟩
  cases ht with
  | deleted hs hne => exact .truncated (prefix_of_sublist hl' hl hs) hne
  | inserted hs hne =>
    obtain ⟨more, rfl⟩ := prefix_of_sublist hl hl' hs
    have hmore : more ≠ [] := by rintro rfl; exact hne (List.append_nil r)
    have := (linked_append.mp hl').2
    rw [zero_add] at this
    exact .extended hmore this
  | permuted hp hne => exact absurd (eq_of_perm hl hl' hp).symm hne
  | @edited pre x x' post post' hne hlen hnot =>
    by_cases hpost : post' = []
    · subst hpost
      obtain rfl : post = [] := List.length_eq_zero_iff.mp hlen.symm
      obtain ⟨-, hxs, hxp, -, -⟩ := linked_append.mp hl
      obtain ⟨-, hxs', hxp', hxh', -⟩ := linked_append.mp hl'
      exact .exchanged hne (hxs'.trans hxs.symm) (hxp'.trans hxp.symm) hxh'
    · exact absurd (relinked_of_linked hl hl' (hcf hl') hne hpost) hnot

end HashChain
