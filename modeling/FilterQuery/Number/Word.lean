namespace FilterQuery

def leastInt64 : Int := -9223372036854775808
def greatestInt64 : Int := 9223372036854775807
def leastInt128 : Int := -170141183460469231731687303715884105728
def greatestWord128 : Nat := 340282366920938463463374607431768211455
def greatestWord64 : Nat := 18446744073709551615
def greatestWord32 : Nat := 4294967295

end FilterQuery
