import BrowsercoreHttp2.Connection
import BrowsercoreHttp2.Library.Arrangement

/-!
# The order of request headers

Both halves of `buildRequestHeaders` go through an order list first and then through what the list left
out. The first half builds the arrangement of the pseudo-headers. The second starts from that map, so it
builds the arrangement of the request's own headers as long as none of them has the name of a
pseudo-header.
-/

namespace BrowsercoreHttp2.Http2Connection

theorem pseudoSources_nodup (req : Http2Request) : ((pseudoSources req).map Prod.fst).Nodup := by
  simp [pseudoSources]

theorem colon_of_mem_pseudoSources {req : Http2Request} {source : String × String} (h : source ∈ pseudoSources req) :
    source.1.toList.head? = some ':' := by
  simp only [pseudoSources, List.mem_cons, List.not_mem_nil, or_false] at h
  obtain rfl | rfl | rfl | rfl := h
  all_goals simp

/-! ### Pseudo-headers -/

/-- The first loop sets what the listed names find. -/
theorem foldl_found (find : String → Option (String × String)) (names : List String) (headers : HeaderMap) :
    names.foldl (fun headers name =>
        match find name with
        | some source => headers.set source
        | none => headers) headers =
      (names.filterMap find).foldl Table.set headers := by
  induction names generalizing headers with
  | nil => rfl
  | cons name rest ih =>
      rw [List.foldl_cons]
      cases hfind : find name with
      | none =>
          rw [List.filterMap_cons_none hfind]
          exact ih headers
      | some source =>
          rw [List.filterMap_cons_some hfind, List.foldl_cons]
          exact ih (headers.set source)

/-- The second loop over the pseudo-headers sets the ones that are not listed. No earlier turn of it set
one of them, so looking the name up again changes nothing. -/
theorem foldl_unlisted (names : List String) {sources : List (String × String)} (hnodup : (sources.map Prod.fst).Nodup)
    (headers : HeaderMap) (hfresh : ∀ source ∈ sources, source.1 ∉ names → source.1 ∉ headers.keys) :
    sources.foldl (fun headers source =>
        if !names.contains source.1 && !headers.contains source.1 then headers.set source else headers) headers =
      (unlisted Prod.fst names sources).foldl Table.set headers := by
  induction sources generalizing headers with
  | nil => rfl
  | cons source rest ih =>
      obtain ⟨hsource, hrest⟩ := List.nodup_cons.mp hnodup
      have hfresh' : ∀ other ∈ rest, other.1 ∉ names → other.1 ∉ headers.keys := fun other hother =>
        hfresh other (List.mem_cons_of_mem source hother)
      rw [List.foldl_cons]
      by_cases hlisted : source.1 ∈ names
      · have hskip : unlisted Prod.fst names (source :: rest) = unlisted Prod.fst names rest :=
          List.filter_cons_of_neg (by simpa using hlisted)
        rw [if_neg (by simp [hlisted]), ih hrest headers hfresh', hskip]
      · have habsent : headers.contains source.1 = false := by
          rw [Table.contains, Option.isSome_eq_false_iff, Option.isNone_iff_eq_none, ← Option.not_isSome_iff_eq_none,
            Option.isSome_iff_exists, ← Table.mem_keys_iff]
          exact hfresh source List.mem_cons_self hlisted
        have hset : unlisted Prod.fst names (source :: rest) = source :: unlisted Prod.fst names rest :=
          List.filter_cons_of_pos (by simpa using hlisted)
        rw [if_pos (by simp [hlisted, habsent]), hset, List.foldl_cons]
        refine ih hrest _ fun other hother hunlisted => ?_
        rw [Table.keys_set, if_neg (hfresh source List.mem_cons_self hlisted), List.mem_append, List.mem_singleton, not_or]
        exact ⟨hfresh' other hother hunlisted, fun heq => hsource (List.mem_map.mpr ⟨other, hother, heq⟩)⟩

theorem pseudoHeaders_entries (options : Http2Options) (req : Http2Request) :
    (pseudoHeaders options req).entries = arranged Prod.fst (options.pseudoHeaderOrder.getD []) (pseudoSources req) := by
  have hfresh : ∀ source ∈ pseudoSources req, source.1 ∉ (Table.empty : HeaderMap).keys := fun _ _ => List.not_mem_nil
  rw [pseudoHeaders]
  cases options.pseudoHeaderOrder with
  | none =>
      have hset := Table.entries_foldl_set_fresh Table.empty (pseudoSources_nodup req) hfresh
      rw [Option.getD_none, arranged_nil]
      exact hset
  | some pseudoOrder =>
      have hset := Table.entries_foldl_arranged (pseudoSources_nodup req) hfresh pseudoOrder
      have hunlisted := foldl_unlisted pseudoOrder (pseudoSources_nodup req) _ fun _ hsource hname =>
        Table.fresh_foldl_listed (pseudoSources_nodup req) hfresh pseudoOrder hsource hname
      rw [Option.getD_some, ← List.nil_append (arranged Prod.fst pseudoOrder (pseudoSources req))]
      refine Eq.trans ?_ hset
      rw [← hunlisted]
      -- The second loop starts from what the first one left.
      exact congrArg (fun headers => ((pseudoSources req).foldl (fun headers source =>
        if !pseudoOrder.contains source.1 && !headers.contains source.1 then headers.set source else headers) headers).entries)
        (foldl_found _ pseudoOrder Table.empty)

theorem colon_of_mem_pseudoHeaders {options : Http2Options} {req : Http2Request} {field : String × String}
    (h : field ∈ (pseudoHeaders options req).entries) : field.1.toList.head? = some ':' := by
  rw [pseudoHeaders_entries] at h
  exact colon_of_mem_pseudoSources ((arranged_perm _ (pseudoSources_nodup req)).mem_iff.mp h)

/-! ### Regular headers -/

/-- The loop over `headerOrder` sets what its names find and remembers the names that found something. -/
theorem foldl_seen (fields : HeaderMap) (names : List String) (headers : HeaderMap) (seen : List String) :
    names.foldl (fun (headers, seen) name =>
        match fields.value name with
        | some value => (headers.set (name, value), name :: seen)
        | none => (headers, seen)) (headers, seen) =
      ((names.filterMap fun name => fields.entries.find? fun field => field.1 = name).foldl Table.set headers,
        (names.filter fun name => (fields.value name).isSome).reverse ++ seen) := by
  induction names generalizing headers seen with
  | nil => rfl
  | cons name rest ih =>
      rw [List.foldl_cons, List.filterMap_cons, List.filter_cons]
      cases hfind : fields.entries.find? fun field => field.1 = name with
      | none =>
          have hvalue : fields.value name = none := by rw [HeaderMap.value, Table.get, hfind, Option.map_none]
          simp only [hvalue]
          exact ih headers seen
      | some field =>
          have hfield : (name, field.2) = field := Prod.ext (key_of_find hfind).symm rfl
          have hvalue : fields.value name = some field.2 := by rw [HeaderMap.value, Table.get, hfind, Option.map_some]
          simp only [hvalue, hfield, Option.isSome_some, if_true, List.foldl_cons, List.reverse_cons, List.append_assoc]
          exact ih (headers.set field) (name :: seen)

theorem foldl_not_seen (fields : HeaderMap) (names : List String) (headers : HeaderMap) :
    fields.entries.foldl (fun headers field =>
        if !((names.filter fun name => (fields.value name).isSome).reverse ++ []).contains field.1 then headers.set field
        else headers) headers =
      (unlisted Prod.fst names fields.entries).foldl Table.set headers := by
  rw [← List.foldl_filter, unlisted]
  refine congrArg (List.foldl Table.set headers) (List.filter_congr fun field hfield => ?_)
  have hvalue : (fields.value field.1).isSome := by rw [HeaderMap.value, Table.get_of_mem hfield]; rfl
  by_cases hname : field.1 ∈ names
  · simp [hname, hvalue]
  · simp [hname]

/-- Every pseudo-header and every header of the request is in the request header map once, pseudo-headers
first, each half by the first occurrences in its order list with what is not listed after them. -/
theorem buildRequestHeaders_arranged (options : Http2Options) (req : Http2Request)
    (hregular : ∀ field ∈ req.headers.entries, field.1.toList.head? ≠ some ':') :
    (buildRequestHeaders options req).entries =
        arranged Prod.fst (options.pseudoHeaderOrder.getD []) (pseudoSources req) ++
          arranged Prod.fst (options.headerOrder.getD []) req.headers.entries ∧
      (arranged Prod.fst (options.pseudoHeaderOrder.getD []) (pseudoSources req)).Perm (pseudoSources req) ∧
      (arranged Prod.fst (options.headerOrder.getD []) req.headers.entries).Perm req.headers.entries := by
  refine ⟨?_, arranged_perm _ (pseudoSources_nodup req), arranged_perm _ req.headers.nodup⟩
  have hfresh : ∀ field ∈ req.headers.entries, field.1 ∉ (pseudoHeaders options req).keys := by
    intro field hfield hkey
    obtain ⟨source, hsource, heq⟩ := List.mem_map.mp hkey
    exact hregular field hfield (heq ▸ colon_of_mem_pseudoHeaders hsource)
  rw [buildRequestHeaders, ← pseudoHeaders_entries]
  cases options.headerOrder with
  | none =>
      have hset := Table.entries_foldl_set_fresh (pseudoHeaders options req) req.headers.nodup hfresh
      rw [Option.getD_none, arranged_nil]
      exact hset
  | some headerOrder =>
      have hset := Table.entries_foldl_arranged req.headers.nodup hfresh headerOrder
      have hseen := foldl_seen req.headers headerOrder (pseudoHeaders options req) []
      rw [Option.getD_some, ← hset, ← foldl_not_seen]
      -- What the loop over `headerOrder` left is what the loop over the rest starts from.
      exact congrArg (fun left => (req.headers.entries.foldl (fun headers field =>
        if !left.2.contains field.1 then headers.set field else headers) left.1).entries) hseen

theorem buildRequestHeaders_arranged_cookie :
    let req : Http2Request :=
      { method := "GET", scheme := "https", authority := "a.test", path := "/"
        headers := (Table.empty.set ("accept", "*/*")).set ("cookie", "a=b"), body := none }
    let options : Http2Options :=
      { pseudoHeaderOrder := some [":path", ":status", ":path"], headerOrder := some ["cookie", "te", "cookie"] }
    (buildRequestHeaders options req).entries =
      [(":path", "/"), (":method", "GET"), (":scheme", "https"), (":authority", "a.test"), ("cookie", "a=b"), ("accept", "*/*")] := by
  intro req options
  have hregular : ∀ field ∈ req.headers.entries, field.1.toList.head? ≠ some ':' := by
    intro field hfield
    have hcases : field = ("accept", "*/*") ∨ field = ("cookie", "a=b") := by
      simpa [req, Table.set, Table.setEntries, Table.empty] using hfield
    obtain rfl | rfl := hcases
    · simp
    · simp
  exact (buildRequestHeaders_arranged options req hregular).1.trans (by decide)

end BrowsercoreHttp2.Http2Connection
