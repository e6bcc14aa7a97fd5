import BasilLang.Syntax.Parser

/-! The libraries that come with the language. Their sources are embedded;
nothing else can be imported. -/
namespace BasilLang.Library

/-- Printing helpers. -/
def std : String :=
"# Printing helpers.
namespace std
    proc print(value) then
        builtin.printval(value)
    end

    proc println(value) then
        builtin.printval(value)
        builtin.printval(\"\\n\")
    end

    proc newline() then
        builtin.printval(\"\\n\")
    end
end
"

/-- Numeric helpers. -/
def math : String :=
"# Numeric helpers. Comparisons yield \"true\"/\"false\" Numbers, so they work
# directly as conditions.
namespace math
    const pi = 3.141592653589793f
    const e = 2.718281828459045f

    proc abs(x) then
        if x < 0 then
            return -x
        end
        return x
    end

    proc min(a, b) then
        if a < b then
            return a
        end
        return b
    end

    proc max(a, b) then
        if a > b then
            return a
        end
        return b
    end

    proc square(x) then
        return x * x
    end

    # Integer exponents only; the loop runs floor(exponent) times.
    proc pow(base, exponent) then
        return math.pow_step(1, base, exponent)
    end

    # Accumulates in a parameter: a `let` here would collide with any
    # caller binding of the same name.
    proc pow_step(acc, base, exponent) then
        for i = 0 to exponent then
            acc = acc * base
        end
        return acc
    end
end
"

/-- The source of a library, if there is one of that name. -/
def source? (name : String) : Option String :=
  if name = "std" then some std
  else if name = "math" then some math
  else none

/-- The name under which places in a library are reported. -/
def file (name : String) : String := s!"<{name}>"

end BasilLang.Library
