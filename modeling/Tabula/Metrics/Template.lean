import Tabula.Search.Aggregation

/-!
# Accumulators

The scripts that gather a value over the documents of a bucket where the backend has no
aggregation for it: the greatest or least of tuples, the distinct values of a column, and how
often each value of a column occurs.
-/

set_option autoImplicit false

namespace Tabula.Template

open Script (code)

/-- A comparison of two tuples, element by element. A null is least in the direction `1` and
greatest in the direction `-1`, so that it is never the best; booleans go before numbers, numbers
before texts. -/
def compareTuples (direction : Int) : String :=
  let dir := toString direction
  String.intercalate "\n" [
    "(a, b)->\x7b",
    "    int i=0;",
    "    for (dummy in a)\x7b",
    "        if (a[i]==null)\x7b",
    "            if (b[i]==null)\x7b",
    "                return 0;",
    "            \x7delse\x7b",
    "                return -1*(" ++ dir ++ ");",
    "            \x7d",
    "        \x7delse if (b[i]==null) return " ++ dir ++ ";",
    "",
    "        if (a[i]!=b[i]) \x7b",
    "            if (a[i] instanceof Boolean)\x7b",
    "                if (b[i] instanceof Boolean)\x7b",
    "                    int cmp = Boolean.compare(a[i], b[i]);",
    "                    if (cmp != 0) return cmp;",
    "                \x7d else \x7b",
    "                    return -1;",
    "                \x7d",
    "            \x7delse if (a[i] instanceof Number) \x7b",
    "                if (b[i] instanceof Boolean) \x7b",
    "                    return 1;",
    "                \x7d else if (b[i] instanceof Number) \x7b",
    "                    int cmp = Double.compare(a[i], b[i]);",
    "                    if (cmp != 0) return cmp;",
    "                \x7d else \x7b",
    "                    return -1;",
    "                \x7d",
    "            \x7delse \x7b",
    "                if (b[i] instanceof Boolean) \x7b",
    "                    return 1;",
    "                \x7d else if (b[i] instanceof Number) \x7b",
    "                    return 1;",
    "                \x7d else \x7b",
    "                    int cmp = ((String)a[i]).compareTo((String)b[i]);",
    "                    if (cmp != 0) return cmp;",
    "                \x7d",
    "            \x7d",
    "        \x7d",
    "        i=i+1;",
    "    \x7d",
    "    return 0;",
    "\x7d"]

/-- The accumulator of the best tuple in a direction: the greatest for `1`, else the least. The
bucket starts out with a tuple of nulls. -/
def bestTuple (tuple nulls : Script) (direction : Int) : Accumulator :=
  let pick := ".stream()." ++ (if 0 < direction then "max" else "min") ++ "("
    ++ compareTuples direction ++ ").get()"
  { init := code "params._agg.best = " ++ nulls ++ code ";"
    map := code "params._agg.best = (Object[])Arrays.asList(new Object[]\x7bparams._agg.best, "
      ++ tuple ++ code ("\x7d)" ++ pick ++ ";")
    combine := code "return params._agg.best"
    reduce := code ("return params._aggs" ++ pick)
    params := none }

def distinctValues (stored : String) : Accumulator where
  init := code "params._agg.terms = new HashSet()"
  map := [.code "for (v in doc[", .text stored, .code "].values) params._agg.terms.add(v);"]
  combine := code "return params._agg.terms.toArray()"
  reduce := code ("HashSet output = new HashSet(); for (a in params._aggs) "
    ++ "\x7b if (a!=null) for (v in a) \x7boutput.add(v)\x7d \x7d return output.toArray()")
  params := none

def valueCounts (stored : String) : Accumulator where
  init := code "params._agg.terms = new HashMap()"
  map := [.code "for (v in doc[", .text stored,
    .code ("].values) params._agg.terms.put(v, "
      ++ "Optional.ofNullable(params._agg.terms.get(v)).orElse(0)+1);")]
  combine := code "return params._agg.terms"
  reduce := code (String.intercalate " " [
    "HashMap output = new HashMap();",
    "for (agg in params._aggs) \x7b",
    "if (agg!=null)\x7b",
    "for (e in agg.entrySet()) \x7b",
    "String key = String.valueOf(e.getKey());",
    "output.put(key, e.getValue() + Optional.ofNullable(output.get(key)).orElse(0));",
    "\x7d",
    "\x7d",
    "\x7d",
    "return output;"])
  params := some (.obj [("_agg", .obj [])])

end Tabula.Template
