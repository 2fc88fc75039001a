import ScopedStore.Proofs.Script.Valid
import ScopedStore.Proofs.Texts.Cells

/-!
# The text of an environment determines its chain

The inspection text of an environment nests the texts of its frames, innermost frame outermost, and
ends with the history of the root and its index. It is taken apart from its beginning: the word in
front of a frame tells whether there is another frame inside, and lists of names and of bindings are
delimited. The index stands last and need not be looked at. Only where it is to be shown that equal
chains have equal texts does the order matter in which the index is listed; a root in which one name
alone is bound leaves no choice.
-/

namespace ScopedStore

open Text

namespace Globals

def inspectColumns (history : List (String × Address)) : String :=
  "GlobalFrame \x7b names: " ++ inspectList (history.map fun b => quoted b.1)
    ++ ", addresses: " ++ inspectList (history.map fun b => b.2.inspect)

/-- The text of a global frame with this history whose index is listed in this order. -/
def listing (history index : List (String × Address)) : String :=
  inspectColumns history
    ++ ", newest: " ++ inspectMap (index.map fun b => quoted b.1 ++ ": " ++ b.2.inspect)
    ++ " \x7d"

/-- The text of a global frame lists the index in the order of its names. -/
theorem inspect_eq_listing (g : Globals) :
    g.inspect = listing g.history.toList g.newest.toList := rfl

def OneName (g : Globals) : Prop :=
  ∀ b ∈ g.history, ∀ c ∈ g.history, b.1 = c.1

instance (g : Globals) : Decidable g.OneName :=
  inferInstanceAs (Decidable (∀ b ∈ g.history, ∀ c ∈ g.history, b.1 = c.1))

end Globals

def Frame.inspectBinding (b : String × Address) : String :=
  "(" ++ quoted b.1 ++ ", " ++ b.2.inspect ++ ")"

namespace Env

/-- The text of a chain whose nested frames have these bindings, over a root with this text. -/
def listing (frames : List (List (String × Address))) (root : String) : String :=
  frames.foldr
    (fun bindings enclosing =>
      "Extension(ExtensionFrame \x7b bindings: " ++ inspectList (bindings.map Frame.inspectBinding)
        ++ ", enclosing: " ++ enclosing ++ " \x7d)")
    ("Global(" ++ inspectSlot root ++ ")")

theorem listing_nil (root : String) :
    listing [] root = "Global(" ++ inspectSlot root ++ ")" := rfl

theorem listing_cons (bindings : List (String × Address)) (rest : List (List (String × Address)))
    (root : String) : listing (bindings :: rest) root =
      "Extension(ExtensionFrame \x7b bindings: " ++ inspectList (bindings.map Frame.inspectBinding)
        ++ ", enclosing: " ++ listing rest root ++ " \x7d)" := rfl

theorem inspect_eq_listing (e : Env) (g : Globals) :
    e.inspect g = listing (e.frames.map Frame.bindings)
      (Globals.listing g.history.toList g.newest.toList) := by
  unfold listing
  rw [List.foldr_map]
  rfl

/-- A text that shows a chain over a global frame, in whatever order the index may be listed. -/
def Shows (e : Env) (g : Globals) (text : String) : Prop :=
  ∃ index : List (String × Address), index.Perm g.newest.toList ∧
    text = listing (e.frames.map Frame.bindings) (Globals.listing g.history.toList index)

/-- The inspection text shows the chain, with the index in the order of its names. -/
theorem shows_inspect (e : Env) (g : Globals) : e.Shows g (e.inspect g) :=
  ⟨g.newest.toList, .refl _, e.inspect_eq_listing g⟩

/-- Two chains of as many frames, which have the same names and addresses in the same order, over
global frames with the same history. -/
structure Agrees (e : Env) (g : Globals) (f : Env) (h : Globals) : Prop where
  depth : e.depth = f.depth
  names : ∀ i : Nat, e.frames[i]?.map Frame.names = f.frames[i]?.map Frame.names
  addresses : ∀ i : Nat, e.frames[i]?.map Frame.addresses = f.frames[i]?.map Frame.addresses
  history : g.history = h.history

end Env

/-! ## Taking texts apart -/

theorem quoted_open (s : String) : ∃ c cs, (quoted s).toList = c :: cs ∧ c ≠ ']' :=
  ⟨'"', _, toList_quoted s, by decide⟩

theorem Address.inspect_open (a : Address) : ∃ c cs, a.inspect.toList = c :: cs ∧ c ≠ ']' := by
  simp [inspect]

namespace Frame

theorem delimited_inspectBinding : Delimited inspectBinding := by
  intro b c r s h
  have hpair := (delimited_quoted.between "(" ", ").pair (Address.delimited_inspect.between "" ")")
  exact hpair b c r s (by simpa [inspectBinding] using h)

theorem inspectBinding_open (b : String × Address) :
    ∃ c cs, (inspectBinding b).toList = c :: cs ∧ c ≠ ']' := by
  simp [inspectBinding]

end Frame

/-- Two lists of pairs are the same if their columns are. -/
theorem columns_injective {α β : Type} :
    Function.Injective fun l : List (α × β) => (l.map Prod.fst, l.map Prod.snd) := by
  intro l m h
  have hzip := congrArg (fun c : List α × List β => c.1.zip c.2) h
  have hl := List.zip_unzip l
  have hm := List.zip_unzip m
  simp only [List.unzip_eq_map] at hl hm
  exact hl.symm.trans (hzip.trans hm)

/-- The columns of a global frame show where they end, and determine its history. -/
theorem Globals.delimited_inspectColumns : Delimited inspectColumns := by
  have hnames := (delimited_quoted.list quoted_open).between "GlobalFrame \x7b names: " ", addresses: "
  have haddresses := Address.delimited_inspect.list Address.inspect_open
  have hcolumns := (hnames.pair haddresses).comp columns_injective
  simp only [List.map_map, Function.comp_def] at hcolumns
  exact hcolumns

/-- The text of a root begins with its columns. -/
theorem Globals.toList_listing (history index : List (String × Address)) : ∃ rest,
    (listing history index).toList = (inspectColumns history).toList ++ rest := by
  delta listing
  simp only [String.toList_append, List.append_assoc]
  exact ⟨_, rfl⟩

theorem toList_inspectSlot (contents : String) : (inspectSlot contents).toList =
    "LocalScope(RefCell \x7b value: ".toList ++ (contents.toList ++ " \x7d)".toList) := by
  delta inspectSlot
  simp only [String.toList_append, List.append_assoc]

namespace Env

/-- Nested frames are told one by one, from the outside of the text to its inside, and the history
where there are no more of them. -/
theorem listing_inj {old new i j : List (String × Address)}
    (frames : List (List (String × Address))) :
    ∀ (frames' : List (List (String × Address))) (r s : List Char),
      (listing frames (Globals.listing old i)).toList ++ r =
        (listing frames' (Globals.listing new j)).toList ++ s → frames = frames' ∧ old = new := by
  have hbindings := Frame.delimited_inspectBinding.list Frame.inspectBinding_open
  rcases Globals.toList_listing old i with ⟨behind, hold⟩
  rcases Globals.toList_listing new j with ⟨behind', hnew⟩
  induction frames with
  | nil =>
      intro frames' r s h
      cases frames' with
      | nil =>
          simp only [listing_nil, String.toList_append, toList_inspectSlot, hold, hnew,
            List.append_assoc, List.append_cancel_left_eq] at h
          exact ⟨rfl, (Globals.delimited_inspectColumns old new _ _ h).1⟩
      | cons bindings' rest' =>
          -- One text begins with the word for a root and the other with that for a nested frame.
          simp [listing_nil, listing_cons] at h
  | cons bindings rest ih =>
      intro frames' r s h
      cases frames' with
      | nil => simp [listing_nil, listing_cons] at h
      | cons bindings' rest' =>
          simp only [listing_cons, String.toList_append, List.append_assoc,
            List.append_cancel_left_eq] at h
          rcases hbindings bindings bindings' _ _ h with ⟨rfl, hinner⟩
          rcases ih rest' _ _ (List.append_cancel_left hinner) with ⟨rfl, hhistory⟩
          exact ⟨rfl, hhistory⟩

/-- Chains agree exactly if their frames bind the same and their roots have one history. -/
theorem agrees_iff {e f : Env} {g h : Globals} : e.Agrees g f h ↔
    e.frames.map Frame.bindings = f.frames.map Frame.bindings ∧
      g.history.toList = h.history.toList := by
  constructor
  · intro hagrees
    refine ⟨List.ext_getElem? fun i => ?_, congrArg Array.toList hagrees.history⟩
    have hnames := hagrees.names i
    have haddresses := hagrees.addresses i
    rw [List.getElem?_map, List.getElem?_map]
    cases he : e.frames[i]? with
    | none =>
        cases hf : f.frames[i]? with
        | none => rfl
        | some b => simp [he, hf] at hnames
    | some a =>
        cases hf : f.frames[i]? with
        | none => simp [he, hf] at hnames
        | some b =>
            simp only [he, hf, Option.map_some, Option.some.injEq] at hnames haddresses ⊢
            calc
              a.bindings = a.names.zip a.addresses := a.zip_names_addresses.symm
              _ = b.names.zip b.addresses := by rw [hnames, haddresses]
              _ = b.bindings := b.zip_names_addresses
  · rintro ⟨hframes, hhistory⟩
    have hframe : ∀ i : Nat,
        e.frames[i]?.map Frame.bindings = f.frames[i]?.map Frame.bindings := by
      intro i
      simpa using congrArg (fun l => l[i]?) hframes
    refine ⟨by simpa [depth] using congrArg List.length hframes, ?_, ?_, Array.toList_inj.1 hhistory⟩
    · intro i
      have hnames := congrArg (Option.map (List.map Prod.fst)) (hframe i)
      simp only [Option.map_map] at hnames
      exact hnames
    · intro i
      have haddresses := congrArg (Option.map (List.map Prod.snd)) (hframe i)
      simp only [Option.map_map] at haddresses
      exact haddresses

end Env

/-! ## The index of a root with one name -/

namespace Globals

variable {g : Globals}

/-- The index of a root in which one name is bound has the last binding and no other. -/
theorem Indexed.newest_eq_some_iff (h : g.Indexed) (hone : g.OneName) {name : String}
    {a : Address} : g.newest[name]? = some a ↔ g.history.toList.getLast? = some (name, a) := by
  rw [h name]
  have hlast : g.history.toList.getLast? = g.bindings.head? := List.head?_reverse.symm
  have hnames : ∀ b ∈ g.bindings, ∀ c ∈ g.bindings, b.1 = c.1 := by
    intro b hb c hc
    exact hone b (by simpa [bindings] using hb) c (by simpa [bindings] using hc)
  rw [hlast]
  cases hbindings : g.bindings with
  | nil => simp
  | cons b rest =>
      rw [hbindings] at hnames
      rcases b with ⟨bound, newest⟩
      by_cases hname : name = bound
      · subst hname
        simp
      · -- The name is not bound at all, since every binding has the name of the first.
        have hnone : ((bound, newest) :: rest).lookup name = none := by
          rw [lookup_eq_none_iff]
          intro hmem
          rcases List.mem_map.1 hmem with ⟨c, hc, rfl⟩
          exact hname (hnames c hc _ List.mem_cons_self)
        simp [hnone, Ne.symm hname]

/-- The index lists the last binding, if there is one. -/
theorem Indexed.toList_newest (h : g.Indexed) (hone : g.OneName) :
    g.newest.toList = g.history.toList.getLast?.toList := by
  have hmem : ∀ b, b ∈ g.newest.toList ↔ g.history.toList.getLast? = some b := by
    intro b
    rw [← h.newest_eq_some_iff hone]
    exact Std.ExtTreeMap.mem_toList_iff_getElem?_eq_some
  have hdistinct := g.newest.distinct_keys_toList
  cases hlist : g.newest.toList with
  | nil =>
      rw [hlist] at hmem
      cases hlast : g.history.toList.getLast? with
      | none => rfl
      | some b => exact absurd ((hmem b).2 hlast) List.not_mem_nil
  | cons b rest =>
      rw [hlist] at hmem hdistinct
      have hb := (hmem b).1 List.mem_cons_self
      rw [hb]
      cases rest with
      | nil => rfl
      | cons c rest =>
          -- A second entry would be the same as the first, but no name is listed twice.
          have hc := (hmem c).1 (List.mem_cons_of_mem b List.mem_cons_self)
          have hne := List.rel_of_pairwise_cons hdistinct List.mem_cons_self
          cases hb.symm.trans hc
          exact absurd Std.ReflCmp.compare_self hne

/-- So there is only one order in which it can be listed. -/
theorem Indexed.perm_newest_iff (h : g.Indexed) (hone : g.OneName)
    {index : List (String × Address)} :
    index.Perm g.newest.toList ↔ index = g.history.toList.getLast?.toList := by
  rw [h.toList_newest hone]
  cases g.history.toList.getLast? with
  | none => simp
  | some b => simp [List.perm_singleton]

end Globals

/-! ## Environments -/

namespace Env

variable {e f : Env} {g h : Globals}

/-- One text is shown only of chains with the same contents, however many names their roots bind
and in whatever order the indices are listed. -/
theorem Shows.agrees {text : String} (he : e.Shows g text) (hf : f.Shows h text) :
    e.Agrees g f h := by
  rcases he with ⟨i, -, htext⟩
  rcases hf with ⟨j, -, htext'⟩
  exact agrees_iff.2 (listing_inj _ _ [] [] (by rw [← htext, ← htext']))

/-- A root in which one name alone is bound leaves one order for its index, and so one text. -/
theorem shows_iff (hg : g.Indexed) (hone : g.OneName) (e : Env) (text : String) :
    e.Shows g text ↔ text = listing (e.frames.map Frame.bindings)
      (Globals.listing g.history.toList g.history.toList.getLast?.toList) := by
  unfold Shows
  simp only [hg.perm_newest_iff hone, exists_eq_left]

/-- With no choice for the index, equal texts are all that agreement comes to. -/
theorem inspect_eq_iff (hg : g.Indexed) (hh : h.Indexed) (hgone : g.OneName) (hhone : h.OneName)
    (e f : Env) : e.inspect g = f.inspect h ↔ e.Agrees g f h := by
  constructor
  · intro hsame
    exact (e.shows_inspect g).agrees (hsame ▸ f.shows_inspect h)
  · intro hagrees
    rcases agrees_iff.1 hagrees with ⟨hframes, hhistory⟩
    have he := (shows_iff hg hgone e _).1 (e.shows_inspect g)
    have hf := (shows_iff hh hhone f _).1 (f.shows_inspect h)
    rw [he, hf, hframes, hhistory]

end Env

namespace Script.Machine

theorem reply_inspect_env {m : Machine} {x : String} {e : Env} (he : m.envs.get? x = some e) :
    m.reply (.inspect .env x) = .ok (.text (e.inspect (m.world.globals e.root))) := by
  simp [reply, exec, inspect, env?, he, answer]

end Script.Machine

end ScopedStore
